import EcmaLower.Proofs.Counts
import EcmaLower.Proofs.SecondRun

/-!
# What the passes count

A pass returns how many constructs it lowered. For classes, shorthands, rest parameters and templates this is
exactly how many of them there are, however they are nested, none of them is left, and the three local passes
keep the number of all other constructs. Arrows are apart: which of them are lowered depends on where they
stand.

## Main results

* `Script.applyRule_exact`, `Class.lowerScript_count` — passes count all that they lower.
* `Shorthand.count_ruled`, `Rest.count_ruled`, `Template.count_ruled` — the local
  passes keep the number of other constructs.
* `Pass.run_exact` — all of this for the passes on a script that is read.
-/

namespace EcmaLower

open Node

variable {p q : Node → Bool} {s : Script} {f : Family} {n : Node}

namespace Pass

/-- Whether a node is a construct that a pass lowers; of arrows it may keep some. -/
def lowers : Pass → Node → Bool
  | classes, n => Family.classDef.isRoot n && Class.isLowerable n
  | arrowFunctions, n => Family.arrowFunction.isRoot n
  | objectShorthand, n => Family.shorthandProperty.isRoot n || Shorthand.isPlainMethod n
  | restParameters, n => Family.restParameter.isRoot n
  | templateLiterals, n => Family.templateLiteral.isRoot n || Family.taggedTemplate.isRoot n

/-- The families whose constructs a pass lowers. -/
def families : Pass → List Family
  | classes => [.classDef]
  | arrowFunctions => [.arrowFunction]
  | objectShorthand => [.shorthandProperty, .shorthandMethod]
  | restParameters => [.restParameter]
  | templateLiterals => [.templateLiteral, .taggedTemplate]

end Pass

/-! ## Rules -/

namespace Script

/-- A script has nothing to count if its statements have nothing to find. -/
lemma count_eq_zero : s.count p = 0 ↔ s.body.any (·.any p) = false := by
  rw [count, total_eq_zero_iff, List.any_eq_false]
  exact forall₂_congr fun n _ => by rw [Node.count_eq_zero, Bool.not_eq_true]

lemma count_applyRule {rule : Node → Option Node} (h : s.WellFormed)
    (hn : ∀ n : Node, n.WellFormed → (n.ruled rule).count p = n.count p) :
    (s.applyRule rule).1.count p = s.count p := by
  rw [count, applyRule_body, total_map]
  exact total_congr fun n hmem => hn n (h n hmem).1

/-- **A rule that fires on all nodes with a property**, and leaves none of them, counts them all and has nothing
to do a second time. -/
theorem applyRule_exact {rule : Node → Option Node} (h : s.WellFormed) (hr : KeepsShape rule)
    (hfires : ∀ n : Node, n.WellFormed → (rule n).isSome = p n)
    (hp : ∀ s t ks, (Node.mk s t ks).WellFormed → p (.mk s t (ks.map (ruled rule))) = p (.mk s t ks))
    (hgone : ∀ n : Node, n.WellFormed → (n.ruled rule).any p = false) :
    (s.applyRule rule).2 = s.count p ∧ (s.applyRule rule).1.count p = 0 ∧
      (s.applyRule rule).1.applyRule rule = ((s.applyRule rule).1, 0) := by
  have hcount : ∀ {s : Script}, s.WellFormed → (s.applyRule rule).2 = s.count p := by
    intro s h
    rw [applyRule, total_map]
    refine total_congr fun n hn => applyRule_count (fun sp t ks hw => ?_) n (h n hn).1
    rw [hfires _ (wellFormed_map_ruled hr hw), hp sp t ks hw]
  have hzero : (s.applyRule rule).1.count p = 0 := by
    rw [count, applyRule_body, total_map, total_eq_zero_iff]
    exact fun n hn => Node.count_eq_zero.mpr (hgone n (h n hn).1)
  have hagain := (hcount (s.applyRule_wellFormed hr h)).trans hzero
  exact ⟨hcount h, hzero, Prod.ext (applyRule_eq_self hagain) hagain⟩

end Script

lemma Respects.or (hp : Respects p) (hq : Respects q) : Respects fun n => p n || q n :=
  fun s t ks ks' h hks => congrArg₂ (· || ·) (hp s t ks ks' h hks) (hq s t ks ks' h hks)

lemma any_or_eq_false (hp : n.any p = false) (hq : n.any q = false) : n.any (fun m => p m || q m) = false :=
  any_eq_false_of_or (fun _ _ h => Bool.or_eq_true_iff.mp h) hp hq

namespace Shorthand

lemma isSome_rule (n : Node) : (rule n).isSome = Pass.objectShorthand.lowers n := by
  obtain ⟨s, t, ks⟩ := n
  cases t with
  | objMethod =>
    match ks with
    | [key, f] =>
      rw [rule, Pass.lowers, isPlainMethod]
      cases usesSuper f.kids <;> rfl
    | [] | [_] | _ :: _ :: _ :: _ => rfl
  | _ => rfl

/-- The number of constructs of other families is kept. -/
theorem count_ruled (hf : f ∉ Pass.objectShorthand.families) (n : Node) (h : n.WellFormed) :
    (n.ruled rule).count f.isRoot = n.count f.isRoot := by
  refine Node.count_ruled keepsShape ((respects_isRoot f).map_ruled alike_ruled)
    (fun _ _ hn hrule => count_rule ?_ ?_ hn hrule) n h
  · cases f <;> first | exact fun _ _ _ => rfl | exact absurd (by decide) hf
  · cases f <;> first | exact fun _ _ => rfl | exact absurd (by decide) hf

end Shorthand

namespace Rest

lemma isSome_rule (h : n.WellFormed) : (rule n).isSome = Pass.restParameters.lowers n := by
  cases hrule : rule n with
  | none => exact (isRoot_eq_false_of_rule h hrule).symm
  | some new =>
    cases moves_of_rule h hrule with
    | intro keys ht =>
      obtain ⟨a, g, rfl, rfl⟩ | ⟨key, rfl, rfl⟩ := ht <;> simp [Pass.lowers, Family.isRoot, hasRest]

/-- The number of constructs of other families is kept. -/
theorem count_ruled (hf : f ∉ Pass.restParameters.families) (n : Node) (h : n.WellFormed) :
    (n.ruled rule).count f.isRoot = n.count f.isRoot := by
  refine Node.count_ruled keepsShape ((respects_isRoot f).map_ruled alike_ruled)
    (fun _ _ hn hrule => count_rule ?_ ?_ ?_ hn hrule) n h
  · cases f <;> first | exact fun _ _ _ _ => rfl | exact absurd (by decide) hf
  · cases f <;> first | exact fun _ _ => rfl | exact absurd (by decide) hf
  · cases f <;> exact fun _ _ => rfl

end Rest

namespace Template

lemma isSome_rule (h : n.WellFormed) : (rule n).isSome = Pass.templateLiterals.lowers n := by
  cases hrule : rule n with
  | none =>
    obtain ⟨htext, htagged⟩ := not_template_of_rule h hrule
    rw [Pass.lowers, htext, htagged]
    rfl
  | some new =>
    obtain ⟨s, qs, es, rfl, -⟩ | ⟨s, sq, qs, tag, es, rfl, -⟩ := rule_cases hrule <;> rfl

/-- The number of constructs of other families is kept. -/
theorem count_ruled (hf : f ∉ Pass.templateLiterals.families) (n : Node) (h : n.WellFormed) :
    (n.ruled rule).count f.isRoot = n.count f.isRoot := by
  refine Node.count_ruled keepsShape ((respects_isRoot f).map_ruled alike_ruled) (fun n new hn hrule => ?_) n h
  have hroot : f.isRoot n = false := by
    obtain ⟨s, qs, es, rfl, -⟩ | ⟨s, sq, qs, tag, es, rfl, -⟩ := rule_cases hrule
    · cases f <;> first | rfl | exact absurd (by decide) hf
    · cases f <;> first | rfl | exact absurd (by decide) hf
  rw [count_rule hn hrule]
  obtain ⟨s, t, ks⟩ := n
  rw [count_mk, hroot, Bool.toNat_false, Nat.zero_add, kids_mk]

end Template

/-! ## Classes -/

namespace Class

lemma count_step {s : Span} {t : Tag} {ks ks' : List Node} {n' : Node} {c d : Nat}
    (hE : Each (fun n n' c => n.WellFormed → Kept n n' ∧ c = n.count isLowered) ks ks' c)
    (hR : Ruled (mk s t ks') n' d) (h : (mk s t ks).WellFormed) :
    Kept (mk s t ks) n' ∧ c + d = (mk s t ks).count isLowered := by
  have hE' : Each (fun n n' _ => n.WellFormed → Kept n n') ks ks' c := hE.mono fun k _ k' d hr hw => (hr hw).1
  refine ⟨kept_step hE' hR h, ?_⟩
  have hd : d = (isLowered (mk s t ks)).toNat := by
    rw [← isLowered_congr (hE'.forall₂ fun k hk k' d hr => hr (h.kid hk)) h]
    cases hR with
    | keep hn => rw [hn]; rfl
    | decl hl | expr hl => rw [isLowered, hl]; rfl
  rw [count_mk, hE.count_eq fun k hk k' d hr => (hr (h.kid hk)).2, hd, Nat.add_comm]

/-- Every class is lowered at its definition. -/
lemma count_lowers (n : Node) (h : n.WellFormed) : n.count Pass.classes.lowers =
    (Pass.classes.lowers n).toNat + n.count isLowered := by
  induction n with
  | mk s t ks ih =>
    rw [count_mk, count_mk, Nat.add_right_inj]
    by_cases hdef : (∃ i, t = .classDecl i) ∨ ∃ i?, t = .classExpr i?
    · obtain ⟨cls, rfl⟩ : ∃ cls, ks = [cls] := by
        rcases hdef with ⟨i, rfl⟩ | ⟨i?, rfl⟩
        · exact (h.single rfl).imp fun _ hcls => hcls.1
        · exact (h.single rfl).imp fun _ hcls => hcls.1
      obtain ⟨sc, parts, rfl⟩ := eq_of_role (cls_of_def h hdef).2 rfl
      have hlowers : Pass.classes.lowers (mk sc .cls parts) = isLowered (mk s t [mk sc .cls parts]) := by
        rcases hdef with ⟨i, rfl⟩ | ⟨i?, rfl⟩ <;> rfl
      rw [total, total, ih _ (by simp) (h.kid (by simp)), hlowers]
      rfl
    · have hlowered : isLowered (mk s t ks) = false := by
        cases t with
        | classDecl i => exact absurd (.inl ⟨i, rfl⟩) hdef
        | classExpr i? => exact absurd (.inr ⟨i?, rfl⟩) hdef
        | _ => rfl
      rw [hlowered, Bool.toNat_false, Nat.zero_add]
      refine total_congr fun k hk => ?_
      have hnot : Pass.classes.lowers k = false := by
        refine Bool.and_eq_false_imp.mpr fun hroot => absurd (h.takenBy hk) ?_
        obtain ⟨sk, tk, parts⟩ := k
        cases tk with
        | cls =>
          cases t with
          | classDecl i => exact absurd (.inl ⟨i, rfl⟩) hdef
          | classExpr i? => exact absurd (.inr ⟨i?, rfl⟩) hdef
          | _ => exact Bool.false_ne_true
        | _ => cases hroot
      rw [ih k hk (h.kid hk), hnot]
      exact Nat.zero_add _

lemma script_count_lowers (h : s.WellFormed) : s.count Pass.classes.lowers = s.count isLowered := by
  refine total_congr fun n hn => ?_
  have hnot : Pass.classes.lowers n = false := by
    refine Bool.and_eq_false_imp.mpr fun hroot => absurd (h n hn).2 ?_
    obtain ⟨sn, t, ks⟩ := n
    cases t <;> first | exact Bool.false_ne_true | cases hroot
  rw [count_lowers n (h n hn).1, hnot]
  exact Nat.zero_add _

/-- **The pass counts all classes that can be lowered**, leaves none of them, and has nothing to do a second
time. -/
theorem lowerScript_count (h : s.WellFormed) : (lowerScript s).2 = s.count Pass.classes.lowers ∧
    (lowerScript s).1.count Pass.classes.lowers = 0 ∧
    lowerScript (lowerScript s).1 = ((lowerScript s).1, 0) := by
  have hE := lowerScript_rel (R := fun n n' c => n.WellFormed → Kept n n' ∧ c = n.count isLowered)
    (fun _ _ _ _ _ _ _ hE hR h => count_step hE hR h) s
  have hw := lowerScript_wellFormed h
  obtain ⟨hzero, hsame⟩ := lowerScript_count_eq_zero_iff hw
  have hagain := hzero.mpr (not_any_isLowered h)
  refine ⟨?_, ?_, Prod.ext (hsame hagain) hagain⟩
  · rw [script_count_lowers h]
    exact hE.count_eq fun n hn n' d hr => (hr (h n hn).1).2
  · rw [script_count_lowers hw, Script.count_eq_zero]
    exact not_any_isLowered h

end Class

/-! ## The passes -/

namespace Pass

/-- **A pass returns how many constructs there are for it to lower**, arrows apart, leaves none of them behind
and has nothing to do a second time. The three local passes keep the number of constructs of every other family.

**Proof sketch.** What a pass makes of the children of a node does not change whether the node is one of its
constructs, so the traversal counts them as a search of the script as it was would (`applyRule_count`). -/
theorem run_exact {text : String} {p : Parsed Node} (hp : parseScript text = .ok p) (pass : Pass)
    (ha : pass ≠ arrowFunctions) :
    let s := p.script
    let out := (pass.run s).1
    (pass.run s).2 = s.count pass.lowers ∧ out.count pass.lowers = 0 ∧ pass.run out = (out, 0) ∧
      (pass ≠ classes → ∀ f ∉ pass.families, out.count f.isRoot = s.count f.isRoot) := by
  intro s out
  have h : s.WellFormed := wellFormed_of_parseScript hp
  rw [← and_assoc, ← and_assoc]
  cases pass with
  | classes => exact ⟨and_assoc.mpr (Class.lowerScript_count h), fun hne => absurd rfl hne⟩
  | arrowFunctions => exact absurd rfl ha
  | objectShorthand =>
    refine ⟨and_assoc.mpr (Script.applyRule_exact h Shorthand.keepsShape (fun n _ => Shorthand.isSome_rule n)
      (((respects_isRoot _).or respects_isPlainMethod).map_ruled Shorthand.alike_ruled) fun n hn => ?_),
      fun _ f hf => Script.count_applyRule h (Shorthand.count_ruled hf)⟩
    exact any_or_eq_false (Shorthand.not_any_shorthandProperty n hn) (Shorthand.not_any_isPlainMethod n hn)
  | restParameters =>
    exact ⟨and_assoc.mpr (Script.applyRule_exact h Rest.keepsShape (fun _ hn => Rest.isSome_rule hn)
      (respects_restParameter.map_ruled Rest.alike_ruled) Rest.not_any_restParameter),
      fun _ f hf => Script.count_applyRule h (Rest.count_ruled hf)⟩
  | templateLiterals =>
    refine ⟨and_assoc.mpr (Script.applyRule_exact h Template.keepsShape (fun _ hn => Template.isSome_rule hn)
      (((respects_isRoot _).or (respects_isRoot _)).map_ruled Template.alike_ruled) fun n hn => ?_),
      fun _ f hf => Script.count_applyRule h (Template.count_ruled hf)⟩
    exact any_or_eq_false (Template.not_any_template n hn).1 (Template.not_any_template n hn).2

/-- A template in a template behind a tag, in a method with a rest parameter: three templates, one method and one
rest parameter. -/
theorem run_exact_nestedTemplates : ∃ p, parseScript
      "var o = \x7b a, m(...r) \x7b return t`x$\x7b`y$\x7b`z`\x7d`\x7d`; \x7d \x7d;" = .ok p ∧
    (templateLiterals.run p.script).2 = 3 ∧
    (templateLiterals.run p.script).1.count templateLiterals.lowers = 0 ∧
    (templateLiterals.run p.script).1.count Family.shorthandMethod.isRoot = 1 ∧
    (templateLiterals.run p.script).1.count Family.restParameter.isRoot = 1 := by
  obtain ⟨p, hp, hcounts⟩ := exists_of_any_toOption (e := parseScript
      "var o = \x7b a, m(...r) \x7b return t`x$\x7b`y$\x7b`z`\x7d`\x7d`; \x7d \x7d;")
    (P := fun p => p.script.count templateLiterals.lowers == 3 &&
      p.script.count Family.shorthandMethod.isRoot == 1 && p.script.count Family.restParameter.isRoot == 1)
    (by decide +kernel)
  simp only [Bool.and_eq_true, beq_iff_eq] at hcounts
  obtain ⟨⟨htemplates, hmethods⟩, hrests⟩ := hcounts
  obtain ⟨hcount, hgone, -, hothers⟩ := run_exact hp templateLiterals (by decide)
  have hothers := hothers (by decide)
  exact ⟨p, hp, hcount.trans htemplates, hgone, (hothers _ (by decide)).trans hmethods,
    (hothers _ (by decide)).trans hrests⟩

end Pass

end EcmaLower
