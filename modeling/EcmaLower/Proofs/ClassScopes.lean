import EcmaLower.Proofs.ClassPlaces

/-!
# Scopes of lowered classes

The lowering of classes moves code: the members of a class into the function that makes it, the initializers
of its instance fields into the constructor. No name is changed on the way, so a reference in this code may
come to mean something else. This module says which references do.

The scopes around a reference, before and after, are told apart by what is crossed on the way to it. The
reference keeps its binding if it finds what it asks for at the same crossing.

## Main results

* `Class.scopes_eq_before` — the scopes of a reference are those that are crossed.
* `Class.boundAt_after_eq_iff` — a reference keeps its binding unless it is rebound.
* `Class.boundAt_receiver` — where the name is found that stands for `this`.
* `Class.reference_keeps_binding_iff` — which references of a script keep their bindings.
-/

namespace EcmaLower.Class

open Node List Build Option

variable {i : Nat} {k n : Node} {own : Option String} {m? : Option Making} {c : Crossing} {f : Frame} {p : List Nat}
  {l : Span × Tag} {inner C : List Crossing} {S : List Frame} {m : Making} {r : Ref} {x : String} {t : Tag}

/-! ## Scopes before -/

/-- The scope that a class brings along, which is listed where the way goes on from the class. -/
def ownScope (m? : Option Making) (n : Node) : List Frame :=
  if n.tag = .cls then m?.toList.map fun m => .ofNames m.own.toList else []

lemma ownScope_none (n : Node) : ownScope none n = [] := ite_self _

lemma ownScope_of_ne (h : n.tag ≠ .cls) : ownScope m? n = [] := if_neg h

/-- Between the definition of a class and the class there is its own name, which the class brings along if
it is lowered. -/
lemma between_eq_before_class {s : Span} {cls : Node} (own : Option String)
    (ht : (∃ x, t = .classDecl x) ∨ ∃ x?, t = .classExpr x?) (hcls : cls.tag = .cls) (hk : [cls][i]? = some k)
    (hown : (mk s t [cls]).between never i k = [.ofNames own.toList])
    (hM : making? (mk s t [cls]) = if isLowerable cls then some ⟨own, constructorNames isLowered (membersOf cls)⟩ else none) :
    (mk s t [cls]).between never i k ++ ownScope m? (mk s t [cls]) = ownScope (partOf m? (mk s t [cls]) i) k ++
        (crossed m? (mk s t [cls]) i k).flatMap Crossing.before := by
  obtain rfl := mem_singleton.mp (mem_of_getElem? hk)
  have hpart : partOf m? (mk s t [k]) i = making? (mk s t [k]) := by
    rcases ht with ⟨x, rfl⟩ | ⟨x?, rfl⟩ <;> rfl
  have hcrossed : crossed m? (mk s t [k]) i k = if isLowerable k then []
      else [.scope ((mk s t [k]).between never i k) ((mk s t [k]).between isLowered i k) ((mk s t [k]).seals i)] := by
    rcases ht with ⟨x, rfl⟩ | ⟨x?, rfl⟩ <;> cases m? <;> rfl
  have hne : (mk s t [k]).tag ≠ .cls := by
    rcases ht with ⟨x, rfl⟩ | ⟨x?, rfl⟩ <;> simp
  rw [ownScope_of_ne hne, hpart, hM, hcrossed, hown]
  cases isLowerable k with
  | true => rw [ownScope, if_pos hcls]; rfl
  | false => rw [if_neg Bool.false_ne_true, ownScope_none]; rfl

/-- Between a node and its child, what is crossed has the scopes of the node, but that a class brings its
own name along. -/
lemma between_eq_before (h : n.WellFormed) (hk : n.kids[i]? = some k) : n.between never i k ++ ownScope m? n =
      ownScope (partOf m? n i) k ++ (crossed m? n i k).flatMap Crossing.before := by
  obtain ⟨s, t, ks⟩ := n
  have hmem : k ∈ ks := mem_of_getElem? hk
  have hne : t = .cls ∨ t = .members → k.tag ≠ .cls := by
    intro ht hc
    have htaken := h.takenBy hmem
    rw [role, hc] at htaken
    rcases ht with rfl | rfl <;> cases htaken
  cases t with
  | cls =>
    cases m? with
    | none => rw [ownScope_none, partOf_none rfl, ownScope_none]; rfl
    | some m =>
      have hpart : ownScope (partOf (some m) (mk s .cls ks) i) k = [] := ownScope_of_ne (hne (.inl rfl))
      rw [hpart]
      cases i <;> rfl
  | members =>
    have hpart : ownScope (partOf m? (mk s .members ks) i) k = [] := ownScope_of_ne (hne (.inr rfl))
    rw [hpart]
    cases m? <;> rfl
  | classDecl x =>
    obtain ⟨cls, rfl, hcls⟩ := h.single rfl
    obtain ⟨sc, cks, rfl⟩ := eq_of_role hcls.2 rfl
    exact between_eq_before_class (some x.name) (.inl ⟨x, rfl⟩) rfl hk rfl rfl
  | classExpr x? =>
    obtain ⟨cls, rfl, hcls⟩ := h.single rfl
    obtain ⟨sc, cks, rfl⟩ := eq_of_role hcls.2 rfl
    exact between_eq_before_class (x?.map Ident.name) (.inr ⟨x?, rfl⟩) rfl hk rfl rfl
  | field isStatic =>
    rw [show partOf m? (mk s (.field isStatic) ks) i = none from rfl, ownScope_none]
    cases m? <;> cases isStatic <;> cases i <;> rfl
  | _ =>
    rw [show partOf m? _ i = none from rfl, ownScope_none, ownScope_of_ne (by simp)]
    cases m? <;> exact (append_nil _).trans (append_nil _).symm

/-- **The scopes of a reference** are those that are crossed on the way to it. -/
theorem scopes_eq_before (h : n.WellFormed) (hp : n.labelAt? p = some l) (hl : l.2.ref?.isSome = true) :
    n.scopes p ++ ownScope m? n = (crossings m? n p).flatMap Crossing.before := by
  induction p generalizing n m? with
  | nil =>
    obtain rfl := some_inj.mp hp
    have hn : n.tag ≠ .cls := by
      intro ht
      rw [label, ht] at hl
      cases hl
    rw [ownScope, if_neg hn]
    rfl
  | cons i q ih =>
    obtain ⟨m, hm, rfl⟩ := map_eq_some_iff.mp hp
    obtain ⟨k, hk, hat⟩ := exists_kid_of_at? hm
    have hw : k.WellFormed := by
      obtain ⟨s, t, ks⟩ := n
      exact h.kid (mem_of_getElem? hk)
    have hq : k.labelAt? q = some m.label := by rw [labelAt?, hat, map_some]
    rw [scopes_cons hk, crossings_cons hk, flatMap_append, ← ih hw hq, append_assoc,
      append_assoc, between_eq_before h hk]

/-! ## Scopes that bind a reference -/

namespace Crossing

/-- A reference that is bound on one side of a crossing only. -/
def Rebinds : Crossing → Ref → Prop
  -- A class that is declared in a block becomes a variable of the function around it.
  | scope f g _, r => ¬((∃ x ∈ f, r ∈ x) ↔ ∃ x ∈ g, r ∈ x)
  -- The heritage does not see the name of the class any more.
  | heritage own, r => r ∈ Frame.ofNames own.toList
  -- The function that makes the class has a `this` of its own.
  | maker own, r => r ∈ Frame.ofFunction ∧ r ∉ Frame.ofNames own.toList
  -- The keys and the values of instance fields see the parameters and variables of the constructor.
  | fieldKey locals, r => r ∈ Frame.ofFunction ++ Frame.ofNames locals
  | instanceThis locals, r => r ≠ .this ∧ r ∈ Frame.ofFunction ++ Frame.ofNames locals
  -- An initializer is no function any more.
  | fieldTarget, r => r = .newTarget
  | staticThis _, r => r = .this

lemma rebinds_iff : c.Rebinds r ↔ ¬((∃ f ∈ c.before, r ∈ f) ↔ ∃ f ∈ c.after, r ∈ f) := by
  cases c with
  | scope => rfl
  | instanceThis locals =>
    have hthis : Ref.this ∈ Frame.ofFunction ++ Frame.ofNames locals := mem_append_left _ (by decide)
    simp only [Rebinds, before, after, mem_singleton, exists_eq_left]
    by_cases hr : r = .this
    · subst hr
      simp only [hthis, ne_eq, not_true_eq_false, false_and]
    · simp only [hr, ne_eq, not_false_eq_true, true_and, false_iff, not_not]
  | maker own =>
    simp only [Rebinds, before, after, mem_singleton, exists_eq_left, mem_append]
    by_cases ho : r ∈ Frame.ofNames own.toList <;> simp [ho]
  | fieldKey locals =>
    simp only [Rebinds, before, after, not_mem_nil, mem_singleton, exists_eq_left, false_and,
      exists_false, false_iff, not_not]
  | _ => simp [Rebinds, before, after]

end Crossing

/-- The crossing at which a reference finds what it asks for, if `G` lists the scopes of each crossing. -/
def boundAt (r : Ref) (G : List (List Frame)) : Option Nat := G.findIdx? fun g => g.any (r ∈ ·)

/-- The first crossing that binds a reference, before or after, does not bind it both times. -/
def Rebound (r : Ref) (C : List Crossing) : Prop :=
  ∃ inner c outer, C = inner ++ c :: outer ∧ (∀ d ∈ inner, ∀ f ∈ d.before ++ d.after, r ∉ f) ∧ c.Rebinds r

section Binder

variable {known : List String} {r : Ref} {g : List Frame} {G H : List (List Frame)} {c : Crossing}
  {C : List Crossing}

lemma boundAt_cons_of_bound (h : ∃ f ∈ g, r ∈ f) : boundAt r (g :: G) = some 0 := by
  rw [boundAt, findIdx?_cons, if_pos (by simpa using h)]

lemma boundAt_cons_of_free (h : ¬∃ f ∈ g, r ∈ f) : boundAt r (g :: G) = (boundAt r G).map (· + 1) := by
  rw [boundAt, findIdx?_cons, if_neg (by simpa using h)]
  rfl

lemma boundAt_append_of_free (h : ∀ g ∈ G, ¬∃ f ∈ g, r ∈ f) :
    boundAt r (G ++ H) = (boundAt r H).map (· + G.length) := by
  induction G with
  | nil => simp
  | cons g G ih =>
    rw [cons_append, boundAt_cons_of_free (h g (by simp)), ih fun g hg => h g (by simp [hg]),
      Option.map_map]
    rfl

lemma boundAt_append_of_bound (h : ∃ g ∈ G, ∃ f ∈ g, r ∈ f) : ∃ j < G.length, boundAt r (G ++ H) = some j := by
  induction G with
  | nil => simp at h
  | cons g G ih =>
    by_cases hg : ∃ f ∈ g, r ∈ f
    · exact ⟨0, by simp, boundAt_cons_of_bound hg⟩
    · obtain ⟨j, hj, hat⟩ := ih (((exists_mem_cons_iff ..).mp h).resolve_left hg)
      exact ⟨j + 1, by simpa using hj, by rw [cons_append, boundAt_cons_of_free hg, hat]; rfl⟩

/-- Scopes that agree bind the same known references. -/
lemma Agree.bound_iff {T : List Frame} (h : Agree known S T) (hr : r.IsKnown known) :
    (∃ f ∈ S, r ∈ f) ↔ ∃ f ∈ T, r ∈ f := by
  induction h with
  | nil => rfl
  | cons hf _ ih => simp only [exists_mem_cons_iff, hf r hr, ih]

/-- Scopes that agree bind a known reference at the same crossing. -/
lemma boundAt_congr (h : Forall₂ (Agree known) G H) (hr : r.IsKnown known) : boundAt r G = boundAt r H := by
  induction h with
  | nil => rfl
  | @cons g g' G H hg _ ih =>
    by_cases hg' : ∃ f ∈ g', r ∈ f
    · rw [boundAt_cons_of_bound hg', boundAt_cons_of_bound ((hg.bound_iff hr).mpr hg')]
    · rw [boundAt_cons_of_free hg', boundAt_cons_of_free ((hg.bound_iff hr).not.mpr hg'), ih]

lemma rebound_cons : Rebound r (c :: C) ↔ c.Rebinds r ∨ (∀ f ∈ c.before ++ c.after, r ∉ f) ∧ Rebound r C := by
  constructor
  · rintro ⟨_ | ⟨d, inner⟩, c', outer, hC, hinner, hc⟩
    · obtain ⟨rfl, -⟩ := cons.inj hC
      exact .inl hc
    · obtain ⟨rfl, rfl⟩ := cons.inj hC
      exact .inr ⟨hinner c (by simp), inner, c', outer, rfl, fun d hd => hinner d (by simp [hd]), hc⟩
  · rintro (hc | ⟨hfree, inner, c', outer, rfl, hinner, hc⟩)
    · exact ⟨[], c, C, rfl, by simp, hc⟩
    · refine ⟨c :: inner, c', outer, rfl, fun d hd => ?_, hc⟩
      rcases mem_cons.mp hd with rfl | hd
      · exact hfree
      · exact hinner d hd

lemma map_succ_ne_zero (i? : Option Nat) : i?.map (· + 1) ≠ some 0 := by cases i? <;> simp

/-- **A reference keeps its binding** unless the first crossing that binds it does so on one side only. -/
theorem boundAt_after_eq_iff : boundAt r (C.map Crossing.after) = boundAt r (C.map Crossing.before) ↔
    ¬Rebound r C := by
  induction C with
  | nil =>
    refine iff_of_true rfl ?_
    rintro ⟨inner, c, outer, h, -⟩
    simp at h
  | cons c C ih =>
    rw [rebound_cons, Crossing.rebinds_iff, map_cons, map_cons]
    by_cases hb : ∃ f ∈ c.before, r ∈ f <;> by_cases ha : ∃ f ∈ c.after, r ∈ f
    · rw [boundAt_cons_of_bound hb, boundAt_cons_of_bound ha]
      refine iff_of_true rfl ?_
      rintro (hne | ⟨hfree, -⟩)
      · exact hne (iff_of_true hb ha)
      · obtain ⟨f, hf, hr⟩ := hb
        exact hfree f (mem_append_left _ hf) hr
    · rw [boundAt_cons_of_bound hb, boundAt_cons_of_free ha]
      exact iff_of_false (map_succ_ne_zero _) fun h => h (.inl fun hiff => ha (hiff.mp hb))
    · rw [boundAt_cons_of_bound ha, boundAt_cons_of_free hb]
      exact iff_of_false (map_succ_ne_zero _).symm fun h => h (.inl fun hiff => hb (hiff.mpr ha))
    · have hfree : ∀ f ∈ c.before ++ c.after, r ∉ f := by
        intro f hf hr
        rcases mem_append.mp hf with hf | hf
        · exact hb ⟨f, hf, hr⟩
        · exact ha ⟨f, hf, hr⟩
      rw [boundAt_cons_of_free hb, boundAt_cons_of_free ha, (map_injective fun _ _ => Nat.succ_inj.mp).eq_iff, ih]
      exact not_congr ⟨fun h => .inr ⟨hfree, h⟩, fun h => h.elim (fun hne => absurd (iff_of_false hb ha) hne) (·.2)⟩

/-- Scopes that agree with those after can be told apart by crossing. -/
lemma Agree.exists_groups (h : Agree known S (C.flatMap Crossing.after)) :
    ∃ G : List (List Frame), S = G.flatten ∧ Forall₂ (Agree known) G (C.map Crossing.after) := by
  induction C generalizing S with
  | nil => exact ⟨[], forall₂_nil_right_iff.mp h, .nil⟩
  | cons c C ih =>
    rw [flatMap_cons] at h
    obtain ⟨G, hG, hagree⟩ := ih (forall₂_drop_append _ _ _ h)
    exact ⟨S.take c.after.length :: G, by rw [flatten_cons, ← hG, take_append_drop],
      .cons (forall₂_take_append _ _ _ h) hagree⟩

end Binder

/-! ## The receiver of static fields -/

section Receiver

variable {m? : Option Making} {n : Node} {p : List Nat}

lemma this_notMem_ofNames (xs : List String) : .this ∉ Frame.ofNames xs := by simp [Frame.ofNames]

/-- Outside of the members of classes, `this` is bound only where the lowering of `super` stops. -/
lemma this_notMem_between (hn : n.role.isClassPart = false) (hs : n.seals i = false)
    (hf : f ∈ n.between never i k) : .this ∉ f := by
  have hblock : f ∈ k.blockScope never → .this ∉ f := by
    unfold blockScope
    split
    · intro hf
      obtain rfl := mem_singleton.mp hf
      exact this_notMem_ofNames _
    · nofun
  obtain ⟨s, t, ks⟩ := n
  cases t with
  | func | getter | setter => cases hs
  | ctor | staticBlock | field => cases hn
  | arrow | catchClause | classDecl | classExpr =>
    obtain rfl := mem_singleton.mp hf
    exact this_notMem_ofNames _
  | funcExpr x? =>
    obtain ⟨x, -, rfl⟩ := mem_map.mp hf
    exact this_notMem_ofNames _
  | switchStmt =>
    cases i with
    | zero => cases hf
    | succ i =>
      obtain rfl := mem_singleton.mp hf
      exact this_notMem_ofNames _
  | forStmt | forIn | forOf =>
    rcases mem_append.mp hf with hf | hf
    · exact hblock hf
    · obtain rfl := mem_singleton.mp hf
      exact this_notMem_ofNames _
  | block | withStmt | labeled | ifStmt | caseClause | defaultClause | tryStmt | whileStmt | doWhile =>
    exact hblock hf
  | _ => cases hf

/-- The same for what is crossed. -/
lemma this_notMem_crossed (hn : n.role.isClassPart = false)
    (hs : (crossed m? n i k).any Crossing.isSealed = false) (hc : c ∈ crossed m? n i k) (hf : f ∈ c.before) :
    .this ∉ f := by
  obtain ⟨s, t, ks⟩ := n
  by_cases hcls : ∃ m, m? = some m ∧ t = .cls
  · obtain ⟨m, rfl, rfl⟩ := hcls
    cases i with
    | zero => cases hs
    | succ i =>
      obtain rfl := mem_singleton.mp hc
      obtain rfl := mem_singleton.mp hf
      exact this_notMem_ofNames _
  · have hcrossed : crossed m? (mk s t ks) i k = crossed none (mk s t ks) i k := by
      cases m? with
      | none => rfl
      | some m =>
        cases t with
        | cls => exact absurd ⟨m, rfl, rfl⟩ hcls
        | field => cases hn
        | _ => rfl
    rw [hcrossed, crossed_none] at hs hc
    split at hc
    · cases hc
    next hl =>
      obtain rfl := mem_singleton.mp hc
      exact this_notMem_between hn (by simpa [hl, Crossing.isSealed] using hs) hf

/-- The lowering of `super` comes to a place only if `this` is not bound on the way. -/
lemma this_notMem_of_unsealed (h : n.WellFormed) (hn : n.role.isClassPart = false)
    (hs : (crossings m? n p).any Crossing.isSealed = false) (hc : c ∈ crossings m? n p) (hf : f ∈ c.before) :
    .this ∉ f := by
  induction p generalizing m? n with
  | nil => cases hc
  | cons i q ih =>
    cases hk : n.kids[i]? with
    | none =>
      rw [crossings, hk] at hc
      cases hc
    | some k =>
      rw [crossings_cons hk] at hs hc
      rw [any_append, Bool.or_eq_false_iff] at hs
      rcases mem_append.mp hc with hc | hc
      · obtain ⟨s, t, ks⟩ := n
        have hmem : k ∈ ks := mem_of_getElem? hk
        refine ih (h.kid hmem) ?_ hs.1 hc
        by_cases ht : t = .cls
        · subst ht
          -- The way goes on into the heritage, since it stops at the members.
          obtain ⟨_, sm, ms, es, heq, -, hes, -⟩ := cls_shape ⟨h, rfl⟩
          obtain ⟨rfl, -, rfl⟩ := (mk.injEq ..).mp heq
          cases i with
          | zero => cases m? <;> cases hs.2
          | succ i => rw [(hes k (mem_of_getElem? hk)).2]; rfl
        · exact h.not_isClassPart ht hn hmem
      · exact this_notMem_crossed hn hs.2 hc hf

/-- Only the initializer of a static field has the class as its `this`. -/
lemma crossed_of_staticThis_mem (h : .staticThis own ∈ crossed m? n i k) :
    ∃ m, m? = some m ∧ m.own = own ∧ n.tag = .field true ∧ crossed m? n i k = [.fieldTarget, .staticThis own] := by
  obtain ⟨s, t, ks⟩ := n
  unfold crossed at h ⊢
  split at h
  next m ht =>
    split at h <;> simp at h
  next m ht =>
    split at h <;> simp at h
  next m ht =>
    split at h
    · cases h
    next hi =>
      obtain rfl : own = m.own := by simpa using h
      exact ⟨m, rfl, rfl, ht, if_neg hi⟩
  · split at h <;> simp at h

/-- The `this` that a class replaces is not bound inside the initializer. -/
lemma this_notMem_of_receiver? (h : n.WellFormed) (hr : receiver? (crossings m? n p) = some (inner, own))
    (hc : c ∈ inner) (hf : f ∈ c.before) : .this ∉ f := by
  induction p generalizing m? n inner with
  | nil => cases hr
  | cons i q ih =>
    cases hk : n.kids[i]? with
    | none =>
      rw [crossings, hk] at hr
      cases hr
    | some k =>
      obtain ⟨s, t, ks⟩ := n
      have hmem : k ∈ ks := mem_of_getElem? hk
      rw [crossings_cons hk] at hr
      cases hC : receiver? (crossings (partOf m? (mk s t ks) i) k q) with
      | some r =>
        rw [receiver?_append_of_eq_some hC] at hr
        exact ih (h.kid hmem) (hC.trans hr) hc
      | none =>
        rw [receiver?_append_of_eq_none hC] at hr
        split at hr
        · cases hr
        next hs =>
          obtain ⟨⟨inner', own'⟩, hD, heq⟩ := map_eq_some_iff.mp hr
          obtain ⟨own₁, hstatic⟩ : ∃ own₁, .staticThis own₁ ∈ crossed m? (mk s t ks) i k := by
            by_contra hnone
            rw [receiver?_eq_none fun own₁ hmem => hnone ⟨own₁, hmem⟩] at hD
            cases hD
          obtain ⟨m, -, -, ht, hcrossed⟩ := crossed_of_staticThis_mem hstatic
          obtain rfl : t = .field true := ht
          have hkrole : k.role.isClassPart = false := by
            by_contra hpart
            rcases Role.eq_of_takenBy (eq_true_of_ne_false hpart) (h.takenBy hmem) with ht | ht <;> cases ht
          rw [hcrossed] at hD
          cases hD
          cases heq
          rcases mem_append.mp hc with hc | hc
          · exact this_notMem_of_unsealed (h.kid hmem) hkrole (eq_false_of_ne_true hs) hc hf
          · obtain rfl := mem_singleton.mp hc
            obtain rfl := mem_singleton.mp hf
            decide

lemma mem_partOf (h : m ∈ partOf m? n i) : m ∈ m? ∨ m ∈ making? n := by
  unfold partOf at h
  split at h
  · split at h
    · exact .inl h
    · cases h
  · exact .inl h
  · exact .inr h

lemma own_mem_names (h : m ∈ making? n) (hx : x ∈ m.own) : x ∈ n.names := by
  unfold making? at h
  split at h
  all_goals
    first | cases h | (split at h <;> cases h)
  · rw [names_mk]
    exact mem_append_left _ (by simpa [Tag.names, eq_comm] using hx)
  · rw [names_mk]
    exact mem_append_left _ (by simpa [Tag.names] using hx)

/-- The name of the class that replaces `this` is mentioned. -/
lemma mem_names_of_staticThis (hc : .staticThis own ∈ crossings m? n p) (hx : x ∈ own) :
    (∃ m ∈ m?, x ∈ m.own) ∨ x ∈ n.names := by
  induction p generalizing m? n with
  | nil => cases hc
  | cons i q ih =>
    cases hk : n.kids[i]? with
    | none =>
      rw [crossings, hk] at hc
      cases hc
    | some k =>
      rw [crossings_cons hk] at hc
      rcases mem_append.mp hc with hc | hc
      · obtain ⟨s, t, ks⟩ := n
        rcases ih hc with ⟨m, hm, hx⟩ | hx
        · rcases mem_partOf hm with hm | hm
          · exact .inl ⟨m, hm, hx⟩
          · exact .inr (own_mem_names hm hx)
        · exact .inr (names_kid (mem_of_getElem? hk) hx)
      · obtain ⟨m, rfl, rfl, -⟩ := crossed_of_staticThis_mem hc
        exact .inl ⟨m, rfl, hx⟩

lemma boundAt_this (hC : inner ++ .staticThis own :: outward own <+: C) (h : ∀ c ∈ inner, ∀ f ∈ c.before, .this ∉ f) :
    boundAt .this (C.map Crossing.before) = some inner.length := by
  obtain ⟨outer, rfl⟩ := hC
  have hinner : ∀ g ∈ inner.map Crossing.before, ¬∃ f ∈ g, .this ∈ f := by
    intro g hg ⟨f, hf, hthis⟩
    obtain ⟨c, hc, rfl⟩ := mem_map.mp hg
    exact h c hc f hf hthis
  have hthis : ∃ f ∈ (Crossing.staticThis own).before, .this ∈ f := ⟨[.this], by simp [Crossing.before]⟩
  rw [append_assoc, map_append, cons_append, map_cons, boundAt_append_of_free hinner, boundAt_cons_of_bound hthis]
  simp

/-- **The name of the class** is found in the function that makes the class, unless a scope of the
initializer binds it. -/
lemma boundAt_receiver {known : List String} {G : List (List Frame)} {I O : List Frame} {M : Frame}
    (hG : Forall₂ (Agree known) G (C.map Crossing.after)) (hC : inner ++ .staticThis own :: outward own <+: C)
    (hS : G.flatten = I ++ M :: O) (hI : Agree known I (inner.flatMap Crossing.after)) (hx : .name x ∈ M) :
    boundAt (.name x) G = some (inner.length + 2) ↔ ∀ f ∈ I, .name x ∉ f := by
  obtain ⟨outer, rfl⟩ := hC
  rw [append_assoc, map_append] at hG
  obtain ⟨Gi, Go, rfl, hi, ho⟩ : ∃ Gi Go, G = Gi ++ Go ∧
      Forall₂ (Agree known) Gi (inner.map Crossing.after) ∧ Forall₂ (Agree known) Go _ :=
    ⟨_, _, (take_append_drop _ G).symm, forall₂_take_append _ _ _ hG, forall₂_drop_append _ _ _ hG⟩
  -- There are no scopes between the initializer and the function.
  obtain _ | ⟨⟨⟩, _ | ⟨⟨⟩, _ | ⟨_ | ⟨-, ⟨⟩⟩, -⟩⟩⟩ := ho
  next Go M' =>
  have hlen : Gi.flatten.length = I.length := by
    rw [(rel_flatten hi).length_eq, hI.length_eq, flatMap_def]
  obtain ⟨rfl, hM⟩ := append_inj (by simpa using hS) hlen
  obtain ⟨rfl, -⟩ := cons.inj hM
  rw [← (hi.length_eq.trans (length_map ..))]
  constructor
  · intro hat f hf hmem
    obtain ⟨g, hg, hf⟩ := mem_flatten.mp hf
    obtain ⟨j, hj, hj'⟩ := boundAt_append_of_bound ⟨g, hg, f, hf, hmem⟩
    have := some_inj.mp (hj'.symm.trans hat)
    omega
  · intro hfree
    have hinner : ∀ g ∈ Gi, ¬∃ f ∈ g, .name x ∈ f := fun g hg ⟨f, hf, hmem⟩ =>
      hfree f (mem_flatten.mpr ⟨g, hg, hf⟩) hmem
    rw [boundAt_append_of_free hinner, boundAt_cons_of_free (by simp), boundAt_cons_of_free (by simp),
      boundAt_cons_of_bound ⟨M', by simp, hx⟩]
    simp [Nat.add_comm]

end Receiver

/-! ## References of a script -/

section Script

variable {s : Script}

lemma wellFormed_tree (h : s.WellFormed) : s.tree.WellFormed := by
  refine wellFormed_mk.mpr ⟨?_, fun k hk => (h k hk).1⟩
  simpa [Tag.fits, List.all_map] using fun k hk => (h k hk).2

lemma names_tree (s : Script) : s.tree.names = s.names := names_mk s.span .block s.body

lemma eq_this_of_ref? (h : t.ref? = some .this) : t = .this := by
  cases t <;> simp_all [Tag.ref?]

/-- What a reference of a script asks for is known. -/
lemma isKnown_vocabulary (hp : s.tree.labelAt? p = some l) (hr : l.2.ref? = some r) : r.IsKnown (vocabulary s) := by
  obtain ⟨m, hm, rfl⟩ := map_eq_some_iff.mp hp
  cases r with
  | this | newTarget => trivial
  | name x =>
    have hx : x ∈ m.tag.names := by
      rw [label] at hr
      cases ht : m.tag <;> simp_all [Tag.ref?, Tag.names]
    exact mem_cons_of_mem _ (names_tree s ▸ mem_names_of_within (within_of_at? hm) hx)

/-- **Lowering rebinds the references of the moved code.** Every reference of a script has its scopes
from what is crossed on the way to it, and stands in the lowered script in the scopes that these crossings
leave.

It keeps its binding exactly if the first crossing that binds it, before or after, does so both times. A
`this` that is bound to the class by the initializer of a static field is replaced by the name of the class,
and this name is found in the function that makes the class exactly if no scope of the initializer binds
it.

A reference is found again by its label, which has its position in the source. One in the key of a compound
assignment to `super` stands twice afterwards, and `p'` is one of the two places. -/
theorem reference_keeps_binding_iff (h : s.WellFormed) {p : List Nat} {l : Span × Tag} {r : Ref}
    (hp : s.tree.labelAt? p = some l) (hr : l.2.ref? = some r) :
    s.tree.scopes p = ((s.crossings p).map Crossing.before).flatten ∧
    ∃ p' l' G, (lowerScript s).1.tree.labelAt? p' = some l' ∧
      (lowerScript s).1.tree.scopes p' = G.flatten ∧
      Forall₂ (Agree (vocabulary s)) G ((s.crossings p).map Crossing.after) ∧
      ((l' = l ∧ (r = .this → receiver? (s.crossings p) = none) ∧
          (boundAt r G = boundAt r ((s.crossings p).map Crossing.before) ↔ ¬Rebound r (s.crossings p))) ∨
        ∃ inner own x, r = .this ∧ receiver? (s.crossings p) = some (inner, own) ∧
          inner ++ .staticThis own :: outward own <+: s.crossings p ∧
          boundAt .this ((s.crossings p).map Crossing.before) = some inner.length ∧
          l' = (.none, .ident x) ∧ (own = some x ∨ own = none ∧ x ∉ vocabulary s) ∧
          (boundAt (.name x) G = some (inner.length + 2) ↔
            ∀ f ∈ inner.flatMap Crossing.after, ∀ y ∈ own, .name y ∉ f)) := by
  have hw := wellFormed_tree h
  have hsome : l.2.ref?.isSome = true := by rw [hr]; rfl
  refine ⟨?_, ?_⟩
  · have hscopes : s.tree.scopes p ++ ownScope none s.tree = _ := scopes_eq_before hw hp hsome
    rwa [ownScope_none, append_nil] at hscopes
  obtain ⟨l', _, ⟨p', hl', -, rfl⟩, hA, hR⟩ :=
    placed_of_lowers (lowers_lowerScript h) hw (mem_cons_self ..) hp hsome
  obtain ⟨G, hG, hagree⟩ := hA.exists_groups
  refine ⟨p', l', G, hl', hG, hagree, ?_⟩
  cases hR with
  | same hthis =>
    refine .inl ⟨rfl, fun hr' => hthis (eq_this_of_ref? (hr' ▸ hr)), ?_⟩
    rw [boundAt_congr hagree (isKnown_vocabulary hp hr)]
    exact boundAt_after_eq_iff
  | @receiver inner own x I O M hl hrec hC hS hI hx hown =>
    have hr' : r = .this := by
      rw [hl] at hr
      exact (some_inj.mp hr).symm
    refine .inr ⟨inner, own, x, hr', hrec, hC, ?_, rfl, hown.imp_right fun ho => ⟨ho.1, ho.2.1⟩, ?_⟩
    · exact boundAt_this hC fun c hc f hf => this_notMem_of_receiver? hw hrec hc hf
    · rw [boundAt_receiver hagree hC (hG.symm.trans hS) hI hx]
      rcases hown with rfl | ⟨rfl, -, hfree⟩
      · have hmem : .staticThis (some x) ∈ s.crossings p := hC.subset (by simp)
        have hknown : x ∈ vocabulary s := by
          rcases mem_names_of_staticThis hmem rfl with ⟨m, hm, -⟩ | hx
          · cases hm
          · exact mem_cons_of_mem _ (names_tree s ▸ hx)
        have hbound := (hI.bound_iff (r := .name x) hknown).not
        simpa using hbound
      · exact iff_of_true hfree nofun

/-- `class A { x = a; y = this; static f = (A) => this; static g = () => this; [this]() {} constructor(a) {} }`,
where the references have positions of their own. -/
def movedCode : Script where
  body := [make (.classDecl ⟨"A", .none⟩) [make .cls [make .members [
    make (.field false) [make (.keyName "x") [], .mk ⟨1, 2⟩ (.ident "a") []],
    make (.field false) [make (.keyName "y") [], .mk ⟨3, 7⟩ .this []],
    make (.field true) [make (.keyName "f") [],
      make (.arrow false) [params [binding "A"], .mk ⟨8, 12⟩ .this []]],
    make (.field true) [make (.keyName "g") [],
      make (.arrow false) [params [], .mk ⟨13, 17⟩ .this []]],
    make (.method .method false) [computedKey (.mk ⟨18, 22⟩ .this []), func [] []],
    make .ctor [make (.keyName "constructor") [], params [binding "a"],
      block []]]]]]

/-- The `this` of an instance field keeps its binding, and that of a static field becomes a name that is
found in the function that makes the class. -/
theorem reference_keeps_binding_iff_movedCode :
    (movedCode.WellFormed ∧ movedCode.tree.labelAt? [0, 0, 0, 1, 1] = some (⟨3, 7⟩, .this) ∧
      ∃ p' G, (lowerScript movedCode).1.tree.labelAt? p' = some (⟨3, 7⟩, .this) ∧
        (lowerScript movedCode).1.tree.scopes p' = G.flatten ∧ boundAt .this G = some 1 ∧
        boundAt .this ((movedCode.crossings [0, 0, 0, 1, 1]).map Crossing.before) = some 1) ∧
    (movedCode.tree.labelAt? [0, 0, 0, 3, 1, 1] = some (⟨13, 17⟩, .this) ∧
      ∃ p' G, (lowerScript movedCode).1.tree.labelAt? p' = some (.none, .ident "A") ∧
        (lowerScript movedCode).1.tree.scopes p' = G.flatten ∧ boundAt (.name "A") G = some 4 ∧
        boundAt .this ((movedCode.crossings [0, 0, 0, 3, 1, 1]).map Crossing.before) = some 2) := by
  have hw : movedCode.WellFormed := by decide
  refine ⟨⟨hw, rfl, ?_⟩, rfl, ?_⟩
  · have hbefore : boundAt .this ((movedCode.crossings [0, 0, 0, 1, 1]).map Crossing.before) = some 1 := rfl
    have hsame : ¬Rebound .this (movedCode.crossings [0, 0, 0, 1, 1]) := boundAt_after_eq_iff.mp rfl
    obtain ⟨-, p', l', G, hl, hG, -, ⟨rfl, -, hiff⟩ | ⟨inner, own, x, -, hrec, -⟩⟩ :=
      reference_keeps_binding_iff hw (p := [0, 0, 0, 1, 1]) (r := .this) rfl rfl
    · exact ⟨p', G, hl, hG, (hiff.mpr hsame).trans hbefore, hbefore⟩
    · cases hrec
  · obtain ⟨-, p', l', G, hl, hG, -,
        ⟨rfl, hrec, -⟩ | ⟨inner, own, x, -, hrec, -, hthis, rfl, hown, hiff⟩⟩ :=
      reference_keeps_binding_iff hw (p := [0, 0, 0, 3, 1, 1]) (r := .this) rfl rfl
    · cases hrec rfl
    · obtain ⟨rfl, rfl⟩ : inner = [.scope [[]] [[]] false, .fieldTarget] ∧ own = some "A" := by
        cases hrec
        exact ⟨rfl, rfl⟩
      obtain rfl : "A" = x := by simpa using hown
      exact ⟨p', G, hl, hG, hiff.mpr (by decide), hthis⟩

/-- **Moved code is captured**: a parameter of the constructor binds a name of an initializer, a parameter
of an arrow binds the name of the class that stands for `this`, and a computed key gets the `this` of the
function that makes the class. -/
theorem moved_references_captured : ∃ s : Script, s.WellFormed ∧
    (∃ p p', s.tree.labelAt? p = some (⟨1, 2⟩, .ident "a") ∧ (∀ f ∈ s.tree.scopes p, .name "a" ∉ f) ∧
      (lowerScript s).1.tree.labelAt? p' = some (⟨1, 2⟩, .ident "a") ∧
      ∃ f ∈ (lowerScript s).1.tree.scopes p', .name "a" ∈ f) ∧
    (∃ p p', s.tree.at? p = some (make (.arrow false)
        [params [binding "A"], .mk ⟨8, 12⟩ .this []]) ∧
      (lowerScript s).1.tree.at? p' = some (make (.arrow false)
        [params [binding "A"], ident "A"]) ∧
      ((lowerScript s).1.tree.scopes (p' ++ [1])).head? = some (.ofNames ["A"])) ∧
    (∃ p p', s.tree.labelAt? p = some (⟨18, 22⟩, .this) ∧ (∀ f ∈ s.tree.scopes p, .this ∉ f) ∧
      (lowerScript s).1.tree.labelAt? p' = some (⟨18, 22⟩, .this) ∧
      ∃ f ∈ (lowerScript s).1.tree.scopes p', .this ∈ f) := by
  refine ⟨movedCode, by decide, ⟨[0, 0, 0, 0, 1], [0, 0, 1, 0, 0, 0, 1, 1, 0, 1, 0, 0, 1], ?_⟩,
    ⟨[0, 0, 0, 2, 1], [0, 0, 1, 0, 0, 0, 1, 3, 0, 1], ?_⟩,
    ⟨[0, 0, 0, 4, 0, 0], [0, 0, 1, 0, 0, 0, 1, 2, 0, 0, 1, 0], ?_⟩⟩
  · decide +kernel
  · exact ⟨rfl, rfl, rfl⟩
  · decide +kernel

end Script

end EcmaLower.Class
