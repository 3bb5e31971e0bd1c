import EcmaLower.Proofs.ClassBuild
import EcmaLower.Proofs.Names

/-!
# Lowering of classes

What the lowering of classes makes of a tree: each class with plain members becomes a call, every
other class stays, and the rest of the tree is rebuilt around them.

## Main results

* `Class.lower_named`, `Class.lower_rel` — all that the traversal can do at a node,
  with the names that it draws and without.
* `Class.lowerScript_wellFormed` — lowering keeps scripts well-formed.
* `Class.any_cls_lowerScript` — the classes that remain are those with other members.
* `Class.not_any_isLowered` — no class that could be lowered is left.
* `Class.lowerScript_count_eq_zero_iff` — nothing is counted iff there is no class to lower.
-/

namespace EcmaLower.Class

open Node Build List

variable {d c : Nat} {s : Span} {t : Tag} {n' : Node} {ks ks' : List Node} {ds : List String}
  {R : Node → Node → Nat → Prop}

/-! ## The traversal -/

lemma lower_mk (s : Span) (t : Tag) (ks : List Node) (w : Walk) :
    lower (mk s t ks) w = rule (mk s t ((ks.mapM lower) w).1) ((ks.mapM lower) w).2 := by
  rw [lower, fold_mk]
  change ((ks.map fun k => (k, lower k)).mapM (fun x : Node × StateM Walk Node => x.2) >>=
    fun ks' => rule (mk s t ks')) w = _
  rw [mapM_snd]
  rfl

/-- How the state moves: `c` classes are lowered, and `cs` are the names that are drawn for them. -/
structure Moves (w w' : Walk) (cs : List String) (c : Nat) : Prop where
  lowered : w'.lowered = w.lowered + c
  names : ∃ new, w'.names.taken = new ++ w.names.taken ∧ Drawn new w.names.taken ∧ new.Perm cs

namespace Moves

lemma refl (w : Walk) : Moves w w [] 0 := ⟨rfl, [], rfl, .nil _, .refl _⟩

lemma trans {w w' w'' : Walk} {cs : List String} (h : Moves w w' cs c) (h' : Moves w' w'' ds d) :
    Moves w w'' (cs ++ ds) (c + d) where
  lowered := by rw [h'.lowered, h.lowered, Nat.add_assoc]
  names := by
    obtain ⟨new, htaken, hdrawn, hperm⟩ := h.names
    obtain ⟨new', htaken', hdrawn', hperm'⟩ := h'.names
    rw [htaken] at htaken' hdrawn'
    refine ⟨new' ++ new, by rw [htaken', append_assoc], hdrawn.append hdrawn', ?_⟩
    exact (hperm'.append hperm).trans perm_append_comm

end Moves

lemma moves_freshName {base : String} (h : base.toList.head? = some '_') (w : Walk) :
    Moves w (freshName base w).2 [(freshName base w).1] 0 := ⟨rfl, _, rfl, .one h w.names, .refl _⟩

lemma lowerAs_spec (name : String) (cls : Node) (w : Walk) : ∃ parent?, parent?.isSome = (heritage? cls).isSome ∧
      (lowerAs name cls w).1 = build name parent? cls ∧ Moves w (lowerAs name cls w).2 parent?.toList 1 := by
  have hcount : Moves w { w with lowered := w.lowered + 1 } [] 1 := ⟨rfl, [], rfl, .nil _, .refl _⟩
  unfold lowerAs
  cases hh : heritage? cls with
  | none => exact ⟨none, rfl, rfl, hcount⟩
  | some e => exact ⟨some _, rfl, rfl, hcount.trans (moves_freshName rfl _)⟩

/-- All that the rule can do, with the names that it draws: it leaves a node, or puts the call that
builds a class in place of a declaration or an expression. A class without a name gets one. -/
inductive NamedRule : Node → Node → List String → Nat → Prop
  | keep {n : Node} : isLowered n = false → NamedRule n n [] 0
  | decl {s : Span} {i : Ident} {cls : Node} {parent? : Option String} : isLowerable cls = true →
    parent?.isSome = (heritage? cls).isSome → NamedRule (mk s (.classDecl i) [cls])
      (var [declarator (binding i.name) (some (build i.name parent? cls))])
      parent?.toList 1
  | named {s : Span} {i : Ident} {cls : Node} {parent? : Option String} : isLowerable cls = true →
    parent?.isSome = (heritage? cls).isSome →
    NamedRule (mk s (.classExpr (some i)) [cls]) (build i.name parent? cls) parent?.toList 1
  | anonymous {s : Span} {cls : Node} {name : String} {parent? : Option String} :
    isLowerable cls = true → parent?.isSome = (heritage? cls).isSome →
    NamedRule (mk s (.classExpr none) [cls]) (build name parent? cls) (name :: parent?.toList) 1

lemma rule_named (n : Node) (w : Walk) : ∃ ds d, Moves w (rule n w).2 ds d ∧ NamedRule n (rule n w).1 ds d := by
  by_cases hn : isLowered n = true
  · unfold isLowered at hn
    split at hn
    · rename_i s i cls
      obtain ⟨parent?, hp, hb, hm⟩ := lowerAs_spec i.name cls w
      simp only [rule, hn, if_true]
      refine ⟨_, 1, hm, ?_⟩
      change NamedRule _ (var [declarator (binding i.name) (some (lowerAs i.name cls w).1)]) _ 1
      rw [hb]
      exact .decl hn hp
    · rename_i s i? cls
      cases i? with
      | some i =>
        obtain ⟨parent?, hp, hb, hm⟩ := lowerAs_spec i.name cls w
        simp only [rule, hn, if_true]
        exact ⟨_, 1, hm, hb ▸ .named hn hp⟩
      | none =>
        obtain ⟨parent?, hp, hb, hm⟩ := lowerAs_spec (freshName "_class" w).1 cls (freshName "_class" w).2
        simp only [rule, hn, if_true]
        exact ⟨_, 1, (moves_freshName rfl w).trans hm, hb ▸ .anonymous hn hp⟩
    · cases hn
  · have hsame : rule n w = (n, w) := by
      unfold rule
      split
      · rename_i s i cls
        rw [if_neg (show ¬isLowerable cls = true from hn)]
        rfl
      · rename_i s i? cls
        rw [if_neg (show ¬isLowerable cls = true from hn)]
        rfl
      · rfl
    rw [hsame]
    exact ⟨[], 0, .refl w, .keep (eq_false_of_ne_true hn)⟩

/-- **All that the traversal can do, with the names that it draws.** A relation that holds of a node
and its result whenever it holds of the children and theirs holds of every tree. -/
theorem lower_named {R : Node → Node → List String → Nat → Prop} (step : ∀ s t ks ks' n' cs ds c d,
      EachNamed (fun k k' cs c => (∃ w, (lower k w).1 = k') ∧ R k k' cs c) ks ks' cs c →
      NamedRule (mk s t ks') n' ds d → R (mk s t ks) n' (cs ++ ds) (c + d)) (n : Node) (w : Walk) :
    ∃ cs c, Moves w (lower n w).2 cs c ∧ R n (lower n w).1 cs c := by
  induction n generalizing w with
  | mk s t ks ih =>
    obtain ⟨cs, c, hm, hE⟩ := eachNamed_mapM Moves.refl Moves.trans lower ks
      (R := fun k k' cs c => (∃ w, (lower k w).1 = k') ∧ R k k' cs c) (fun k hk w => by
        obtain ⟨cs, c, hm, hR⟩ := ih k hk w
        exact ⟨cs, c, hm, ⟨w, rfl⟩, hR⟩) w
    obtain ⟨ds, d, hm', hR⟩ := rule_named (mk s t ((ks.mapM lower) w).1) ((ks.mapM lower) w).2
    rw [lower_mk]
    exact ⟨cs ++ ds, c + d, hm.trans hm', step _ _ _ _ _ _ _ _ _ hE hR⟩

/-- All that the rule can do, whatever names it draws. -/
inductive Ruled : Node → Node → Nat → Prop
  | keep {n : Node} : isLowered n = false → Ruled n n 0
  | decl {s : Span} {i : Ident} {cls : Node} {parent? : Option String} : isLowerable cls = true →
    parent?.isSome = (heritage? cls).isSome → Ruled (mk s (.classDecl i) [cls])
      (var [declarator (binding i.name) (some (build i.name parent? cls))]) 1
  | expr {s : Span} {i? : Option Ident} {cls : Node} {name : String} {parent? : Option String} :
    isLowerable cls = true → parent?.isSome = (heritage? cls).isSome →
    Ruled (mk s (.classExpr i?) [cls]) (build name parent? cls) 1

lemma NamedRule.ruled {n : Node} (h : NamedRule n n' ds d) : Ruled n n' d := by
  cases h with
  | keep h => exact .keep h
  | decl h hp => exact .decl h hp
  | named h hp | anonymous h hp => exact .expr h hp

lemma rule_spec (n : Node) (w : Walk) : ∃ c, (rule n w).2.lowered = w.lowered + c ∧ Ruled n (rule n w).1 c := by
  obtain ⟨ds, d, hm, hR⟩ := rule_named n w
  exact ⟨d, hm.lowered, hR.ruled⟩

/-- **All that the traversal can do.** A relation that holds of a node and its result whenever it
holds of the children and theirs holds of every tree. -/
theorem lower_rel (step : ∀ s t ks ks' n' c d, Each R ks ks' c → Ruled (mk s t ks') n' d → R (mk s t ks) n' (c + d))
    (n : Node) (w : Walk) : ∃ c, (lower n w).2.lowered = w.lowered + c ∧ R n (lower n w).1 c := by
  obtain ⟨cs, c, hm, hR⟩ := lower_named (R := fun n n' _ c => R n n' c)
    (fun s t ks ks' n' _ _ c d hE hR => step s t ks ks' n' c d (hE.each fun _ _ _ _ h => h.2) hR.ruled) n w
  exact ⟨c, hm.lowered, hR⟩

/-! ## Shape -/

/-- A class is defined by a declaration or an expression. -/
lemma cls_of_def {cls : Node} (h : (mk s t [cls]).WellFormed)
    (ht : (∃ i, t = .classDecl i) ∨ ∃ i?, t = .classExpr i?) : cls.Is .cls := by
  rcases ht with ⟨i, rfl⟩ | ⟨i?, rfl⟩
  · obtain ⟨a, ⟨⟩, hcls⟩ := h.single rfl
    exact hcls
  · obtain ⟨a, ⟨⟩, hcls⟩ := h.single rfl
    exact hcls

lemma Ruled.is {n : Node} (h : Ruled n n' d) (hn : n.WellFormed) : n'.Is n.role := by
  cases h with
  | keep => exact ⟨hn, rfl⟩
  | @decl s i cls parent? hl =>
    have hcls := cls_of_def hn (.inl ⟨i, rfl⟩)
    refine is_var.mpr (forall_mem_singleton.mpr (is_declarator.mpr ?_))
    exact ⟨is_binding.ofRole rfl, is_build hcls hl _ _⟩
  | @expr s i? cls name parent? hl =>
    exact is_build (cls_of_def hn (.inr ⟨i?, rfl⟩)) hl _ _

lemma kept_step (hE : Each (fun n n' _ => n.WellFormed → Kept n n') ks ks' c) (hR : Ruled (mk s t ks') n' d)
    (h : (mk s t ks).WellFormed) : Kept (mk s t ks) n' := by
  have hkept : Kept (mk s t ks) (mk s t ks') := kept_mk (hE.forall₂ fun k hk k' d hr => hr (h.kid hk)) h
  have his := hR.is hkept.is.1
  cases hR with
  | keep => exact hkept
  | decl | expr => exact kept_of_is his rfl (by simp [Tag.role])

/-! ## What remains -/

/-- Whether a node is a class that stays. -/
def isKept (n : Node) : Bool := n.tag == .cls && !isLowerable n

/-- What is counted in a tree, and that nothing else changes it. -/
structure Counts (n n' : Node) (c : Nat) : Prop extends Kept n n' where
  count : c = 0 ↔ n.any isLowered = false
  same : c = 0 → n' = n

lemma counts_step (hE : Each (fun n n' c => n.WellFormed → Counts n n' c) ks ks' c)
    (hR : Ruled (mk s t ks') n' d) (h : (mk s t ks).WellFormed) : Counts (mk s t ks) n' (c + d) := by
  have hE' : Each (fun n n' _ => n.WellFormed → Kept n n') ks ks' c := hE.mono fun k _ k' d hr hw => (hr hw).toKept
  have hcount : c = 0 ↔ ks.any (·.any isLowered) = false := by
    rw [hE.count_eq_zero_iff fun k hk k' d hr => (hr (h.kid hk)).count]
    simp
  have hcongr := isLowered_congr (hE'.forall₂ fun k hk k' d hr => hr (h.kid hk)) h
  refine ⟨kept_step hE' hR h, ?_, ?_⟩
  · rw [any_mk, Bool.or_eq_false_iff, ← hcount, ← hcongr]
    cases hR with
    | keep hn => simp [hn]
    | decl hl | expr hl => simp [isLowered, hl]
  · intro hzero
    cases hR with
    | keep =>
      rw [hE.eq_of_count_eq_zero hzero fun k hk k' hr => (hr (h.kid hk)).same rfl]
    | decl | expr => cases hzero

/-- The classes that remain in a tree, or in the parts of a class. -/
structure Remains (n n' : Node) : Prop extends Kept n n' where
  outside : n.role ≠ .cls → n'.any Family.classDef.isRoot = n.any isKept
  inside : n.role = .cls → n'.kids.any (·.any Family.classDef.isRoot) = n.kids.any (·.any isKept)

lemma apart_classDef : Apart Family.classDef.isRoot where
  func _ _ _ _ := rfl
  ctor _ _ := rfl
  super n hn := by
    obtain ⟨s, t, ks⟩ := n
    cases t <;> first | rfl | cases hn
  this n hn := by
    obtain ⟨s, t, ks⟩ := n
    obtain rfl : t = .this := hn
    rfl
  kids _ _ _ _ _ := Family.ignoresKids_isRoot (by decide) _ _ _ _

/-- Below a node that is not lowered, a class stays if it cannot be lowered. -/
lemma any_kept_cls {k k' : Node} (h : (mk s t ks).WellFormed) (hn : isLowered (mk s t ks) = false)
    (hk : k ∈ ks) (hc : k.role = .cls) (hr : k'.role = .cls) :
    k'.any Family.classDef.isRoot = k.any isKept := by
  have hl : isLowerable k = false := by
    have htaken := h.takenBy hk
    rw [hc] at htaken
    cases t with
    | classDecl i | classExpr i =>
      obtain ⟨cls, rfl, -⟩ := h.single rfl
      rw [mem_singleton.mp hk]
      exact hn
    | _ => cases htaken
  obtain ⟨sc, cks, rfl⟩ := eq_of_role hc rfl
  obtain ⟨sc', cks', rfl⟩ := eq_of_role hr rfl
  rw [any_mk, any_mk, show isKept (mk sc .cls cks) = true by simp [isKept, hl]]
  rfl

/-- Where the definition of a class is replaced, the classes of its parts remain. -/
lemma any_kept_lowered {cls cls' : Node} (ht : t ≠ .cls) (hr : Remains cls cls') (hcls : cls'.Is .cls)
    (hc : cls.role = .cls) (hl : isLowerable cls' = true) (name : String) (parent? : Option String) :
    (build name parent? cls').any Family.classDef.isRoot = (mk s t [cls]).any isKept := by
  obtain ⟨sc, cks, rfl⟩ := eq_of_role hc rfl
  have hkept : isKept (mk s t [mk sc .cls cks]) = false := by simp [isKept, ht]
  have hkept' : isKept (mk sc .cls cks) = false := by
    simp [isKept, ← hr.cls rfl, hl]
  rw [any_build_eq apart_classDef hcls hl, hr.inside rfl, any_mk, hkept, any_cons, any_mk, hkept']
  simp

lemma remains_step (hE : Each (fun n n' _ => n.WellFormed → Remains n n') ks ks' c)
    (hR : Ruled (mk s t ks') n' d) (h : (mk s t ks).WellFormed) : Remains (mk s t ks) n' := by
  have hE' : Each (fun n n' _ => n.WellFormed → Kept n n') ks ks' c := hE.mono fun k _ k' d hr hw => (hr hw).toKept
  have hkept := kept_step hE' hR h
  have hw : (mk s t ks').WellFormed := (kept_mk (hE.forall₂ fun k hk k' d hr => (hr (h.kid hk)).toKept) h).is.1
  have hcongr := isLowered_congr (hE'.forall₂ fun k hk k' d hr => hr (h.kid hk)) h
  cases hR with
  | keep hn =>
    refine ⟨hkept, fun hrole => ?_, fun hrole => ?_⟩
    · have hroot : Family.classDef.isRoot (mk s t ks') = isKept (mk s t ks) := by
        cases t <;> first | rfl | exact absurd rfl hrole
      rw [any_mk, any_mk, hroot]
      congr 1
      refine hE.any_eq fun k hk k' d hr => ?_
      have hr := hr (h.kid hk)
      by_cases hc : k.role = .cls
      · exact any_kept_cls h (hcongr ▸ hn) hk hc (hr.is.2.trans hc)
      · exact hr.outside hc
    · refine hE.any_eq fun k hk k' d hr => (hr (h.kid hk)).outside fun hc => ?_
      have htaken := h.takenBy hk
      rw [hc, Tag.eq_of_role (t := t) (u := .cls) (by rw [show t.role = .cls from hrole]; rfl)]
        at htaken
      cases htaken
  | @decl s i cls' parent? hl hh =>
    cases hE with
    | @cons cls _ _ _ _ _ hr hnil =>
      cases hnil
      have hcls : cls.Is .cls := cls_of_def h (.inl ⟨i, rfl⟩)
      have hcls' : cls'.Is .cls := cls_of_def hw (.inl ⟨i, rfl⟩)
      refine ⟨hkept, fun _ => ?_, nofun⟩
      rw [← any_kept_lowered (by simp) (hr hcls.1) hcls' hcls.2 hl i.name parent?]
      simp
  | @expr s i? cls' name parent? hl hh =>
    cases hE with
    | @cons cls _ _ _ _ _ hr hnil =>
      cases hnil
      have hcls : cls.Is .cls := cls_of_def h (.inr ⟨i?, rfl⟩)
      have hcls' : cls'.Is .cls := cls_of_def hw (.inr ⟨i?, rfl⟩)
      refine ⟨hkept, fun _ => ?_, nofun⟩
      exact any_kept_lowered (by simp) (hr hcls.1) hcls' hcls.2 hl name parent?

/-! ## Nothing is left to lower -/

/-- What remains holds no definition that could be lowered, if the children hold none. -/
lemma Ruled.not_isLowered (hR : Ruled (mk s t ks) n' d) (h : (mk s t ks).WellFormed)
    (hkids : ∀ k ∈ ks, k.any isLowered = false) : n'.any isLowered = false := by
  have hparts : ∀ {cls : Node}, cls ∈ ks → cls.kids.any (·.any isLowered) = false := by
    intro cls hcls
    have := hkids cls hcls
    obtain ⟨sc, tc, cks⟩ := cls
    rw [any_mk, Bool.or_eq_false_iff] at this
    exact this.2
  cases hR with
  | keep hn =>
    rw [any_mk, hn, Bool.false_or, any_eq_false]
    simpa using hkids
  | @decl s i cls parent? hl =>
    simp [any_build_eq apart_isLowered (cls_of_def h (.inl ⟨i, rfl⟩)) hl, hparts]
  | @expr s i? cls name parent? hl =>
    rw [any_build_eq apart_isLowered (cls_of_def h (.inr ⟨i?, rfl⟩)) hl, hparts (by simp)]

lemma done_step (hE : Each (fun n n' _ => n.WellFormed → Kept n n' ∧ n'.any isLowered = false) ks ks' c)
    (hR : Ruled (mk s t ks') n' d) (h : (mk s t ks).WellFormed) :
    Kept (mk s t ks) n' ∧ n'.any isLowered = false := by
  have hE' : Each (fun n n' _ => n.WellFormed → Kept n n') ks ks' c := hE.mono fun k _ k' d hr hw => (hr hw).1
  have hkids : ∀ k ∈ ks', k.any isLowered = false := hE.forall_right fun k hk k' d hr => (hr (h.kid hk)).2
  have hw : (mk s t ks').WellFormed := (kept_mk (hE'.forall₂ fun k hk k' d hr => hr (h.kid hk)) h).is.1
  exact ⟨kept_step hE' hR h, hR.not_isLowered hw hkids⟩

/-! ## Scripts -/

/-- The same for the statements of a script. -/
lemma lowerScript_rel
    (step : ∀ s t ks ks' n' c d, Each R ks ks' c → Ruled (mk s t ks') n' d → R (mk s t ks) n' (c + d)) (s : Script) :
    Each R s.body (lowerScript s).1.body (lowerScript s).2 := by
  obtain ⟨-, c, hc, hE⟩ := each_mapM (fun _ => True) Walk.lowered lower s.body
    (fun k _ w _ => ⟨trivial, lower_rel step k w⟩) { names := .ofScript s } trivial
  have hcount : (lowerScript s).2 = c := hc.trans (Nat.zero_add c)
  rw [hcount]
  exact hE

/-- **Lowering keeps scripts well-formed.** -/
theorem lowerScript_wellFormed {s : Script} (h : s.WellFormed) : (lowerScript s).1.WellFormed := by
  have hE := lowerScript_rel (R := fun n n' _ => n.WellFormed → Kept n n')
    (fun _ _ _ _ _ _ _ hE hR h => kept_step hE hR h) s
  refine hE.forall_right fun n hn n' d hr => ?_
  have his := (hr (h n hn).1).is
  exact ⟨his.1, his.2 ▸ (h n hn).2⟩

/-- **A script keeps a class iff it has one that cannot be lowered.** -/
theorem any_cls_lowerScript {s : Script} (h : s.WellFormed) :
    (lowerScript s).1.body.any (·.any Family.classDef.isRoot) = s.body.any (·.any isKept) := by
  have hE := lowerScript_rel (R := fun n n' _ => n.WellFormed → Remains n n')
    (fun _ _ _ _ _ _ _ hE hR h => remains_step hE hR h) s
  refine hE.any_eq fun n hn n' d hr => (hr (h n hn).1).outside fun hrole => ?_
  have := (h n hn).2
  rw [hrole] at this
  cases this

/-- **No class that could be lowered is left.** -/
theorem not_any_isLowered {s : Script} (h : s.WellFormed) : (lowerScript s).1.body.any (·.any isLowered) = false := by
  have hE := lowerScript_rel (R := fun n n' _ => n.WellFormed → Kept n n' ∧ n'.any isLowered = false)
    (fun _ _ _ _ _ _ _ hE hR h => done_step hE hR h) s
  rw [any_eq_false]
  simpa using hE.forall_right (P := fun n' => n'.any isLowered = false)
    fun n hn n' d hr => (hr (h n hn).1).2

/-- **Nothing is counted iff there is no class to lower**, and then nothing changes. -/
theorem lowerScript_count_eq_zero_iff {s : Script} (h : s.WellFormed) :
    ((lowerScript s).2 = 0 ↔ s.body.any (·.any isLowered) = false) ∧
    ((lowerScript s).2 = 0 → (lowerScript s).1 = s) := by
  have hE := lowerScript_rel (R := fun n n' c => n.WellFormed → Counts n n' c)
    (fun _ _ _ _ _ _ _ hE hR h => counts_step hE hR h) s
  constructor
  · rw [hE.count_eq_zero_iff fun n hn n' d hr => (hr (h n hn).1).count]
    simp
  · intro hzero
    have hbody := hE.eq_of_count_eq_zero hzero fun n hn n' hr => (hr (h n hn).1).same rfl
    exact congrArg (fun body => { s with body }) hbody

end EcmaLower.Class
