import EcmaLower.Proofs.Compile
import EcmaLower.Proofs.Displacement
import EcmaLower.Proofs.Residue

/-!
# A second run of the passes

After the passes have run in their canonical order there is, with one exception, nothing left for a
second run: no class that could be lowered, no shorthand, no rest parameter and no template. The
exception are arrows that were kept where they stood and were moved to a place where they would not
be kept. A second run rewrites something iff there is such an arrow. In particular nothing is rewritten
where no construct of any family is left.

## Main results

* `settled_afterTemplates` — the passes leave a settled script.
* `runPasses_count_eq_zero_iff` — a run over a settled script rewrites nothing iff there is
  no arrow to lower.
* `downlevel_of_residue_eq_nil` — a text without residue comes back as it is.
* `second_run_count_eq_zero_iff` — when a second run rewrites nothing.
-/

namespace EcmaLower

open Node List Build

variable {rule : Node → Option Node} {s : Script}

/-- A script in which only arrows are left to lower. -/
structure Settled (s : Script) : Prop where
  wellFormed : s.WellFormed
  classes : s.body.any (·.any Class.isLowered) = false
  properties : s.body.any (·.any Family.shorthandProperty.isRoot) = false
  methods : s.body.any (·.any Shorthand.isPlainMethod) = false
  rests : s.body.any (·.any Family.restParameter.isRoot) = false
  templates : s.body.any (·.any Family.templateLiteral.isRoot) = false
  tagged : s.body.any (·.any Family.taggedTemplate.isRoot) = false

/-! ## The first run -/

section FirstRun

variable {s : Script} (h : s.WellFormed)

include h

/-- A class that could be lowered is lowered, and the later passes make none. -/
lemma not_any_isLowered_afterTemplates : (afterTemplates s).body.any (·.any Class.isLowered) = false := by
  rw [any_afterTemplates h respects_isLowered (fun _ _ _ => rfl) fun _ _ _ _ => rfl,
    any_afterRests h respects_isLowered (fun _ _ _ _ => rfl) (fun _ _ => rfl) fun _ _ => rfl,
    any_afterShorthands h respects_isLowered (fun _ _ _ => rfl) fun _ _ => rfl,
    any_afterArrows h respects_isLowered (fun _ _ _ _ => rfl) (fun _ _ _ => rfl) (fun _ _ => rfl)
      fun _ _ => rfl]
  exact Class.not_any_isLowered h

/-- A method without `super` becomes a property, and the later passes keep `super` where it is. -/
lemma not_any_isPlainMethod_afterTemplates : (afterTemplates s).body.any (·.any Shorthand.isPlainMethod) = false := by
  rw [any_afterTemplates h respects_isPlainMethod (fun _ _ _ => rfl) fun _ _ _ _ => rfl,
    any_afterRests h respects_isPlainMethod (fun _ _ _ _ => rfl) (fun _ _ => rfl) fun _ _ => rfl]
  refine ((afterArrows s).any_applyRule (wellFormed_afterArrows h) Shorthand.not_any_isPlainMethod).trans ?_
  simp

/-- **Only arrows are left to lower.** -/
theorem settled_afterTemplates : Settled (afterTemplates s) where
  wellFormed := wellFormed_afterTemplates h
  classes := not_any_isLowered_afterTemplates h
  properties := not_any_afterTemplates h (by simp)
  methods := not_any_isPlainMethod_afterTemplates h
  rests := not_any_afterTemplates h (by simp)
  templates := not_any_afterTemplates h (by simp)
  tagged := not_any_afterTemplates h (by simp)

/-- The arrows that a second run finds are those that were displaced. -/
lemma finds_afterTemplates : (∃ n ∈ (afterTemplates s).body, Finds Arrow.visited Arrow.Lowers false n) ↔
      ∃ n ∈ (afterClasses s).body, Finds Arrow.displacing Arrow.Displaced (false, false) n := by
  have hmap : ∀ {rule : Node → Option Node} {F G : Node → Prop} (s : Script), s.WellFormed →
      (∀ n : Node, n.WellFormed → (F (n.ruled rule) ↔ G n)) →
      ((∃ n ∈ (s.applyRule rule).1.body, F n) ↔ ∃ n ∈ s.body, G n) := by
    intro rule F G s hs hn
    rw [Script.applyRule_body]
    simp only [mem_map, exists_exists_and_eq_and]
    exact exists_congr fun n => and_congr_right fun hmem => hn n (hs n hmem).1
  calc (∃ n ∈ (afterTemplates s).body, Finds Arrow.visited Arrow.Lowers false n)
    _ ↔ ∃ n ∈ (afterRests s).body, Finds Arrow.visited Arrow.Lowers false n :=
      hmap _ (wellFormed_afterRests h) fun n hn => Template.finds_ruled n hn false
    _ ↔ ∃ n ∈ (afterShorthands s).body, Finds Arrow.moved Arrow.Lowers false n :=
      hmap _ (wellFormed_afterShorthands h) fun n hn => Rest.finds_ruled n hn false
    _ ↔ ∃ n ∈ (afterArrows s).body, Finds Arrow.moved Arrow.Lowers false n :=
      hmap _ (wellFormed_afterArrows h) fun n hn => Shorthand.finds_ruled n hn false
    _ ↔ _ := Arrow.finds_lowerScript (wellFormed_afterClasses h)

end FirstRun

/-! ## A run over a settled script -/

/-- A rule does not fire in a script if what it fires on is of two kinds and neither is there. -/
lemma count_eq_zero_of_any {p q : Node → Bool} (h : s.WellFormed)
    (hr : ∀ n : Node, n.WellFormed → (rule n).isSome = true → p n = true ∨ q n = true)
    (hp : s.body.any (·.any p) = false) (hq : s.body.any (·.any q) = false) : (s.applyRule rule).2 = 0 := by
  rw [any_eq_false] at hp hq
  rw [Script.applyRule_count_eq_zero_iff, any_eq_false]
  intro n hn
  rw [Bool.not_eq_true]
  exact any_eq_false_of_or (fun m hm => hr m ((h n hn).1.within hm)) (eq_false_of_ne_true (hp n hn))
    (eq_false_of_ne_true (hq n hn))

lemma Script.applyRule_eq_self (h : (s.applyRule rule).2 = 0) : (s.applyRule rule).1 = s := by
  have hbody : (s.applyRule rule).1.body = s.body := by
    rw [applyRule_body]
    refine (map_congr_left fun n hn => ?_).trans (map_id _)
    rw [applyRule_count_eq_zero_iff, any_eq_false] at h
    exact (Node.count_eq_zero_iff n).2 ((Node.count_eq_zero_iff n).1.mpr (eq_false_of_ne_true (h n hn)))
  exact congrArg (fun body => { s with body }) hbody

namespace Settled

variable {s : Script} (h : Settled s)

include h

lemma class_count : (Class.lowerScript s).2 = 0 ∧ (Class.lowerScript s).1 = s := by
  obtain ⟨hiff, hsame⟩ := Class.lowerScript_count_eq_zero_iff h.wellFormed
  exact ⟨hiff.mpr h.classes, hsame (hiff.mpr h.classes)⟩

/-- Where no arrow is lowered, the pass makes nothing for the passes behind it. -/
lemma arrows (hc : (Arrow.lowerScript s).2 = 0) : Settled (Arrow.lowerScript s).1 where
  wellFormed := Arrow.lowerScript_wellFormed h.wellFormed
  classes := (Arrow.any_lowerScript Arrow.compares_eq respects_isLowered (fun _ _ _ => rfl)
    (fun _ _ => rfl) (fun _ _ => rfl) h.wellFormed (.inr hc)).trans h.classes
  properties := by
    have := Arrow.any_lowerScript (p := Family.shorthandProperty.isRoot) Arrow.compares_imp
      (respects_isRoot _) (fun _ _ _ => rfl)
      (fun _ _ => rfl) (fun _ _ hf => absurd hf (by decide)) h.wellFormed (.inr hc)
    rw [h.properties] at this
    exact eq_false_of_ne_true fun ht => absurd (this ht) (by decide)
  methods := (Arrow.any_lowerScript Arrow.compares_eq respects_isPlainMethod (fun _ _ _ => rfl)
    (fun _ _ => rfl) (fun _ _ => rfl) h.wellFormed (.inr hc)).trans h.methods
  rests := (Arrow.any_lowerScript Arrow.compares_eq respects_restParameter (fun _ _ _ => rfl)
    (fun _ _ => rfl) (fun _ _ => rfl) h.wellFormed (.inr hc)).trans h.rests
  templates := (Arrow.any_lowerScript Arrow.compares_eq (respects_isRoot _) (fun _ _ _ => rfl)
    (fun _ _ => rfl) (fun _ _ => rfl) h.wellFormed (.inr hc)).trans h.templates
  tagged := (Arrow.any_lowerScript Arrow.compares_eq (respects_isRoot _) (fun _ _ _ => rfl)
    (fun _ _ => rfl) (fun _ _ => rfl) h.wellFormed (.inr hc)).trans h.tagged

lemma shorthand_count : (s.applyRule Shorthand.rule).2 = 0 := by
  refine count_eq_zero_of_any h.wellFormed (fun n hn hrule => ?_) h.properties h.methods
  obtain ⟨new, hnew⟩ := Option.isSome_iff_exists.mp hrule
  obtain ⟨s, name, ks, rfl, -⟩ | ⟨s, key, f, rfl, hsuper, -⟩ := Shorthand.rule_cases hnew
  · exact .inl rfl
  · exact .inr (by simp [Shorthand.isPlainMethod, hsuper])

lemma rest_count : (s.applyRule Rest.rule).2 = 0 := by
  refine count_eq_zero_of_any h.wellFormed (fun n hn hrule => .inl ?_) h.rests h.rests
  obtain ⟨new, hnew⟩ := Option.isSome_iff_exists.mp hrule
  cases Rest.moves_of_rule hn hnew with
  | intro keys ht => obtain ⟨a, g, rfl, rfl⟩ | ⟨key, rfl, rfl⟩ := ht <;> simp [Family.isRoot, hasRest]

lemma template_count : (s.applyRule Template.rule).2 = 0 := by
  refine count_eq_zero_of_any h.wellFormed (fun n hn hrule => ?_) h.templates h.tagged
  obtain ⟨new, hnew⟩ := Option.isSome_iff_exists.mp hrule
  obtain ⟨s, qs, es, rfl, -⟩ | ⟨s, sq, qs, tag, es, rfl, -⟩ := Template.rule_cases hnew
  · exact .inl rfl
  · exact .inr rfl

/-- **A run over a settled script counts the arrows it lowers**, and nothing if there are none. -/
theorem runPasses_count_eq_zero_iff : (runPasses Pass.canonical s).2 = 0 ↔ (Arrow.lowerScript s).2 = 0 := by
  obtain ⟨hclass, hsame⟩ := h.class_count
  have hcount : (runPasses Pass.canonical s).2 = (Class.lowerScript s).2 +
      (runPasses [.arrowFunctions, .objectShorthand, .restParameters, .templateLiterals]
        (Class.lowerScript s).1).2 := rfl
  rw [hcount, hclass, hsame, Nat.zero_add]
  have harrows : (runPasses [.arrowFunctions, .objectShorthand, .restParameters, .templateLiterals]
      s).2 = (Arrow.lowerScript s).2 +
      (runPasses [.objectShorthand, .restParameters, .templateLiterals] (Arrow.lowerScript s).1).2 := rfl
  rw [harrows, Nat.add_eq_zero_iff]
  refine and_iff_left_of_imp fun hc => ?_
  have hs := h.arrows hc
  generalize (Arrow.lowerScript s).1 = d at hs
  change (d.applyRule Shorthand.rule).2 + (((d.applyRule Shorthand.rule).1.applyRule Rest.rule).2 +
      ((((d.applyRule Shorthand.rule).1.applyRule Rest.rule).1.applyRule Template.rule).2 + 0)) = 0
  rw [Script.applyRule_eq_self hs.shorthand_count, Script.applyRule_eq_self hs.rest_count,
    hs.shorthand_count, hs.rest_count, hs.template_count]

end Settled

/-! ## Scripts without residue -/

section Residue

variable {s : Script} (h : s.WellFormed) (hr : s.residue = [])

include h hr

/-- What a rule fires on belongs to some family, so without residue only arrows could be left. -/
lemma settled_of_residue_eq_nil : Settled s where
  wellFormed := h
  classes := by
    -- a class that could be lowered stands below its definition
    refine eq_false_of_ne_true fun hany => ?_
    obtain ⟨⟨sn, t, ks⟩, hn, hlowered⟩ := (s.any_body_iff _).mp hany
    obtain ⟨k, hk, hwithin⟩ := hn
    have hw : (mk sn t ks).WellFormed := (h k hk).1.within hwithin
    have hcls : ∃ cls ∈ ks, cls.Is .cls := by
      cases t with
      | classDecl i | classExpr i =>
        obtain ⟨cls, rfl, hcls⟩ := hw.single rfl
        exact ⟨cls, mem_singleton_self _, hcls⟩
      | _ => cases hlowered
    obtain ⟨cls, hmem, -, hrole⟩ := hcls
    have hroot : Family.classDef.isRoot cls = true := by
      obtain ⟨sc, tc, parts⟩ := cls
      cases tc <;> first | rfl | cases hrole
    have hnone := residue_eq_nil_iff.mp hr .classDef
    rw [(s.any_body_iff _).mpr ⟨cls, ⟨k, hk, (Within.kid hmem .refl).trans hwithin⟩, hroot⟩] at hnone
    cases hnone
  properties := residue_eq_nil_iff.mp hr .shorthandProperty
  methods := by
    have hnone := residue_eq_nil_iff.mp hr .shorthandMethod
    rw [any_eq_false] at hnone ⊢
    intro n hn hany
    refine hnone n hn ?_
    obtain ⟨⟨sm, t, ks⟩, hm, hplain⟩ := (any_iff _ n).mp hany
    refine (any_iff _ n).mpr ⟨_, hm, ?_⟩
    cases t <;> first | rfl | cases hplain
  rests := residue_eq_nil_iff.mp hr .restParameter
  templates := residue_eq_nil_iff.mp hr .templateLiteral
  tagged := residue_eq_nil_iff.mp hr .taggedTemplate

/-- Without an arrow there is none to lower. -/
lemma arrow_count_of_residue_eq_nil : (Arrow.lowerScript s).2 = 0 := by
  rw [Arrow.lowerScript_count_eq_zero_iff h]
  rintro n hn ⟨m, ⟨sa, t, ks⟩, hreach, ⟨a, ha⟩, -⟩
  obtain rfl : t = .arrow a := ha
  have hnone := residue_eq_nil_iff.mp hr .arrowFunction
  rw [(s.any_body_iff _).mpr ⟨_, ⟨n, hn, Arrow.within_of_reaches_visited hreach⟩, rfl⟩] at hnone
  cases hnone

end Residue

/-- **A script without residue is left alone.** On a script that is read and holds no construct of any
family every pass counts nothing, and its text comes back as it is.

**Proof sketch.** All that a rule fires on is a construct of a family, so the script is settled and has
no arrow. Then the first pass leaves the tree as it is, and the second one leaves it settled, so that
nothing is counted by the passes behind it either. -/
theorem downlevel_of_residue_eq_nil {text : String} {p : Parsed Node} (hp : parseScript text = .ok p)
    (hr : p.script.residue = []) :
    (∀ pass : Pass, (pass.run p.script).2 = 0) ∧ downlevel Pass.canonical text = .ok text := by
  have h : p.script.WellFormed := wellFormed_of_parseScript hp
  have hs := settled_of_residue_eq_nil h hr
  have harrows := arrow_count_of_residue_eq_nil h hr
  refine ⟨fun pass => ?_, ?_⟩
  · cases pass with
    | classes => exact hs.class_count.1
    | arrowFunctions => exact harrows
    | objectShorthand => exact hs.shorthand_count
    | restParameters => exact hs.rest_count
    | templateLiterals => exact hs.template_count
  · have hcount : (runPasses Pass.canonical p.script).2 = 0 :=
      hs.runPasses_count_eq_zero_iff.mpr harrows
    rw [downlevel_of_parseScript Pass.canonical hp, if_pos hcount]

/-- A script with an accessor that uses `super`, a pattern and blanks as they come is left alone. -/
theorem downlevel_accessor : ∃ p,
    parseScript "var  o = \x7b get x() \x7breturn super.y\x7d \x7d ; [ a ]= [o.x]" = .ok p ∧
    p.script.residue = [] ∧ (∀ pass : Pass, (pass.run p.script).2 = 0) ∧
    downlevel Pass.canonical "var  o = \x7b get x() \x7breturn super.y\x7d \x7d ; [ a ]= [o.x]" =
      .ok "var  o = \x7b get x() \x7breturn super.y\x7d \x7d ; [ a ]= [o.x]" := by
  obtain ⟨p, hp, hempty⟩ := exists_of_any_toOption
    (e := parseScript "var  o = \x7b get x() \x7breturn super.y\x7d \x7d ; [ a ]= [o.x]")
    (P := fun p => p.script.residue.isEmpty) (by decide +kernel)
  have hr := isEmpty_iff.mp hempty
  exact ⟨p, hp, hr, downlevel_of_residue_eq_nil hp hr⟩

/-! ## The second run -/

/-- **When a second run rewrites nothing.** A second run finds nothing to do exactly if the first one
kept no arrow for its place in a parameter list that it then moved out of there with a rest pattern. -/
theorem second_run_count_eq_zero_iff {s : Script} (h : s.WellFormed) :
    (runPasses Pass.canonical (runPasses Pass.canonical s).1).2 = 0 ↔
      ∀ n ∈ (Pass.classes.run s).1.body, ∀ m a,
        Reaches Arrow.displacing m a (false, false) n → ¬Arrow.Displaced m a := by
  have hs := settled_afterTemplates h
  rw [runPasses_canonical, hs.runPasses_count_eq_zero_iff,
    Arrow.lowerScript_count_eq_zero_iff hs.wellFormed]
  have := not_congr (finds_afterTemplates h)
  simp only [not_exists, not_and] at this
  rw [this]
  refine forall₂_congr fun n _ => ?_
  simp only [Finds, not_exists, not_and]

/-- `function f(...[a = () => this]) {}` -/
def arrowInRest : Script where
  body := [funcDecl "f" (make (.func false false) [
    params [make .restPat [make .arrayPat [make .assignPat
      [binding "a", make (.arrow false) [params [], this]]]]],
    block []])]

/-- An arrow in a rest pattern moves with it. -/
theorem second_run_arrowInRest : arrowInRest.WellFormed ∧
    ∃ n ∈ (Pass.classes.run arrowInRest).1.body, ∃ m a,
      Reaches Arrow.displacing m a (false, false) n ∧ Arrow.Displaced m a := by
  have hs : arrowInRest.WellFormed := by
    intro n hn
    rw [mem_singleton.mp hn]
    exact ⟨rfl, rfl⟩
  have hcount : (runPasses Pass.canonical (runPasses Pass.canonical arrowInRest).1).2 ≠ 0 := by
    decide +kernel
  have hnot := mt (second_run_count_eq_zero_iff hs).mpr hcount
  push Not at hnot
  exact ⟨hs, hnot⟩

/-- Down-leveling a text twice is not down-leveling it once: the first run moves an arrow out of a
parameter list, where it was kept, and the second one lowers it. -/
theorem downlevel_twice_ne : ∃ text once, (downlevel Pass.canonical text).toOption = some once ∧
    (downlevel Pass.canonical once).toOption ≠ some once :=
  ⟨"function f(...[a = () => this]) \x7b\x7d",
    "function f() \x7b\n    var [a = ()=>this] = Array.prototype.slice.call(arguments, 0);\n\x7d\n",
    by decide +kernel, by decide +kernel⟩

end EcmaLower
