import EcmaLower.Proofs.ClassCode

/-!
# Crossings of lowered classes

On the way from the root of a script to a reference one goes from nodes to their children, and crosses
scopes. When classes are lowered most of these stay, but a class and its fields are taken apart: instead of
the scope of the class there is the function that makes it, instead of the scope of an initializer there is
the constructor, or nothing. A crossing lists the scopes before and after.

This module also says what becomes of the tree of a script, all the way down, and what it means that a
reference is placed in it.
-/

namespace EcmaLower.Class

open Node List

variable {ks ks' : List Node} {m n n' : Node} {R : Node → Node → Prop} {s : Span} {t : Tag}

/-! ## Crossings -/

/-- What stands between a node of a script and one of its children, before and after its classes are
lowered. A class `own` binds its own name. -/
inductive Crossing
  /-- A part of the tree that stays, with its scopes before and after. -/
  | scope (before after : List Frame) (isSealed : Bool)
  /-- From a class to its heritage, which is evaluated outside of the function that makes the class. -/
  | heritage (own : Option String)
  /-- From a class to its members, which this function defines. -/
  | maker (own : Option String)
  /-- From an instance field to its key, which is evaluated in the constructor. -/
  | fieldKey (locals : List String)
  /-- The `new.target` of an initializer. -/
  | fieldTarget
  /-- The `this` of the initializer of an instance field, which is run by the constructor. -/
  | instanceThis (locals : List String)
  /-- The `this` of the initializer of a static field, which the function that makes the class runs. -/
  | staticThis (own : Option String)
deriving DecidableEq, Repr

namespace Crossing

/-- The scopes before. -/
def before : Crossing → List Frame
  | scope f _ _ => f
  | heritage own | maker own => [.ofNames own.toList]
  | fieldKey _ => []
  | fieldTarget => [[.newTarget]]
  | instanceThis _ | staticThis _ => [[.this]]

/-- The scopes after. -/
def after : Crossing → List Frame
  | scope _ f _ => f
  | heritage _ | fieldTarget | staticThis _ => []
  | maker own => [.ofFunction ++ .ofNames own.toList]
  | fieldKey locals | instanceThis locals => [.ofFunction ++ .ofNames locals]

/-- Whether the lowering of `super` in the code around it stops here. -/
def isSealed : Crossing → Bool
  | scope _ _ b => b
  | maker _ => true
  | _ => false

end Crossing

/-- A class that is lowered: its own name, and the names that its constructor binds. -/
structure Making where
  own : Option String
  locals : List String

/-- The class that a node defines, if it is lowered. -/
def making? : Node → Option Making
  | .mk _ (.classDecl x) [cls] =>
    if isLowerable cls then some ⟨some x.name, constructorNames isLowered (membersOf cls)⟩ else none
  | .mk _ (.classExpr x?) [cls] =>
    if isLowerable cls then some ⟨x?.map Ident.name, constructorNames isLowered (membersOf cls)⟩ else none
  | _ => none

/-- What is crossed from a node to its child `k`, the `i`-th one, where `m?` is the class that the node
is a part of, if that class is lowered. -/
def crossed (m? : Option Making) (n : Node) (i : Nat) (k : Node) : List Crossing :=
  match m?, n.tag with
  | some m, .cls => if i = 0 then [.maker m.own] else [.heritage m.own]
  | some m, .field false => if i = 0 then [.fieldKey m.locals] else [.fieldTarget, .instanceThis m.locals]
  | some m, .field true => if i = 0 then [] else [.fieldTarget, .staticThis m.own]
  | _, _ =>
    if isLowered n then [] else [.scope (n.between never i k) (n.between isLowered i k) (n.seals i)]

/-- The class that the `i`-th child of a node is a part of. -/
def partOf (m? : Option Making) (n : Node) (i : Nat) : Option Making :=
  match n.tag with
  | .cls => if i = 0 then m? else none
  | .members => m?
  | _ => making? n

/-- What is crossed on the way to a place, innermost first. -/
def crossings (m? : Option Making) (n : Node) : List Nat → List Crossing
  | [] => []
  | i :: p =>
    match n.kids[i]? with
    | none => []
    | some k => crossings (partOf m? n i) k p ++ crossed m? n i k

/-! ## Trees and what becomes of them -/

/-- What becomes of a tree, all the way down. The names that are drawn are not `known`, and are drawn
after those in the parts of the tree. -/
inductive Lowers (known : List String) : Node → Node → Prop
  | node {s : Span} {t : Tag} {ks ks' : List Node} {n' : Node} {ds : List String} {d : Nat} :
    Forall₂ (Lowers known) ks ks' → Forall₂ Kept ks ks' → NamedRule (mk s t ks') n' ds d →
    (∀ y ∈ ds, y ∉ known ∧ ∀ k ∈ ks', y ∉ k.names) → Lowers known (mk s t ks) n'

section Trees

variable {known : List String}

lemma forall₂_imp_mem {S : Node → Node → Prop} (h : Forall₂ R ks ks') (hm : ∀ k ∈ ks, ∀ k', R k k' → S k k') :
    Forall₂ S ks ks' := by
  induction h with
  | nil => exact .nil
  | cons hk _ ih => exact .cons (hm _ (by simp) _ hk) (ih fun k hmem => hm k (by simp [hmem]))

lemma exists_getElem? (h : Forall₂ R ks ks') {i : Nat} {k : Node} (hk : ks[i]? = some k) :
    ∃ k', ks'[i]? = some k' ∧ R k k' := by
  induction h generalizing i with
  | nil => cases hk
  | @cons a b l l' hab _ ih =>
    cases i with
    | zero => exact ⟨b, rfl, Option.some_inj.mp hk ▸ hab⟩
    | succ i => exact ih hk

/-- What the rule does to the result of the children, it does for all names that are drawn in turn. -/
lemma forall₂_of_drawn {Q : Node → Node → Prop} {cs : List String} {c : Nat}
    (h : EachNamed (fun k k' cs _ => Drawn cs known → Q k k') ks ks' cs c) (hd : Drawn cs known) :
    Forall₂ Q ks ks' := by
  induction h with
  | nil => exact .nil
  | @cons k k' ks ks' cs ds c d hk _ ih =>
    exact .cons (hk (hd.sub (sublist_append_left cs ds) (Subset.refl _)))
      (ih (hd.sub (sublist_append_right cs ds) (Subset.refl _)))

/-- The names that a script mentions, and the one that every function has. -/
def vocabulary (s : Script) : List String := "arguments" :: s.names

/-- A part of a script is rendered, and lowered all the way down. -/
def Descends (script : Script) (n n' : Node) (cs : List String) : Prop :=
  Renders script n n' cs ∧ (n.WellFormed → (∀ m, m.Within n → script.Contains m) →
    Drawn cs script.names → Lowers (vocabulary script) n n')

lemma names_subset_of_within (h : m.Within n) : m.names ⊆ n.names := by
  intro x hx
  induction h with
  | refl => exact hx
  | kid hk _ ih => exact names_kid hk ih

lemma names_subset_of_contains {s : Script} (h : s.Contains n) : n.names ⊆ s.names := by
  intro x hx
  obtain ⟨k, hk, hn⟩ := h
  exact mem_flatMap.mpr ⟨k, hk, names_subset_of_within hn hx⟩

section Step

variable {script : Script} {s : Span} {t : Tag} {ks ks' : List Node} {n' : Node} {cs ds : List String}
  {c d : Nat}
  (hE : EachNamed (fun k k' cs _ => (∃ w, (lower k w).1 = k') ∧ Descends script k k' cs) ks ks' cs c)

include hE in
/-- What becomes of the children of a node, if the names `ds` are drawn for the node after those that are
drawn for the children. -/
lemma descends_kids (h : (mk s t ks).WellFormed) (hin : ∀ m, m.Within (mk s t ks) → script.Contains m)
    (hd : Drawn (cs ++ ds) script.names) :
    Forall₂ (Lowers (vocabulary script)) ks ks' ∧ Forall₂ Kept ks ks' ∧
      ∀ y ∈ ds, y ∉ vocabulary script ∧ ∀ k ∈ ks', y ∉ k.names := by
  have hkid : ∀ k ∈ ks, k.WellFormed ∧ ∀ m, m.Within k → script.Contains m := fun k hk =>
    ⟨h.kid hk, fun m hm => hin m (.kid hk hm)⟩
  have hcs : Drawn cs script.names := hd.sub (sublist_append_left cs ds) (Subset.refl _)
  have hnames : ks.flatMap names ⊆ script.names := by
    intro x hx
    obtain ⟨k, hk, hx⟩ := mem_flatMap.mp hx
    exact names_subset_of_contains (hin k (.kid hk .refl)) hx
  have hkids : HygienicKids (Makes (s := script)) knownNames ks ks' cs :=
    hygienic_kids (hE.mono fun k hk k' cs c hr => (hr.2.1 (hkid k hk).1 (hkid k hk).2).2)
      (hcs.sub (.refl _) hnames)
  refine ⟨forall₂_of_drawn (hE.mono fun k hk k' cs c hr => hr.2.2 (hkid k hk).1 (hkid k hk).2) hcs,
    ?_, fun y hy => ?_⟩
  · exact (hE.each (S := fun k k' _ => k ∈ ks → Kept k k') fun k k' cs c hr hk =>
      (hr.2.1 (hkid k hk).1 (hkid k hk).2).1).forall₂ fun k hk k' d hr => hr hk
  · have hfresh := hd.fresh y (mem_append_right _ hy)
    have hnot : y ∉ cs := fun hc => (nodup_append.mp hd.nodup).2.2 y hc y hy rfl
    refine ⟨?_, hkids.free y (fun hy => hfresh (hnames hy)) hnot (notMem_knownNames hd (mem_append_right _ hy))⟩
    rw [vocabulary, mem_cons, not_or]
    exact ⟨hd.ne (mem_append_right _ hy) (by decide), hfresh⟩

include hE in
lemma descends_step (hR : NamedRule (mk s t ks') n' ds d) : Descends script (mk s t ks) n' (cs ++ ds) := by
  refine ⟨hygienic_step (hE.mono fun k _ k' cs c hk => ⟨hk.1, hk.2.1⟩) hR, fun h hin hd => ?_⟩
  obtain ⟨hks, hkept, hfresh⟩ := descends_kids hE h hin hd
  exact .node hks hkept hR hfresh

end Step

/-- **What becomes of a script**, all the way down. -/
theorem lowers_lowerScript {s : Script} (h : s.WellFormed) : Lowers (vocabulary s) s.tree (lowerScript s).1.tree := by
  obtain ⟨cs, c, hm, hE⟩ := eachNamed_mapM Moves.refl Moves.trans lower s.body
    (R := fun k k' cs _ => Descends s k k' cs)
    (fun k _ => lower_named (fun _ _ _ _ _ _ _ _ _ hE hR => descends_step hE hR) k)
    { names := .ofScript s }
  obtain ⟨new, htaken, hdrawn, hperm⟩ := hm.names
  have hcs : Drawn cs s.names := hdrawn.perm hperm
  have hin : ∀ k ∈ s.body, ∀ m, m.Within k → s.Contains m := fun k hk m hm => ⟨k, hk, hm⟩
  have hkids := forall₂_of_drawn (hE.mono fun k hk k' cs c hr => hr.2 (h k hk).1 (hin k hk)) hcs
  have hkept := (hE.each (S := fun k k' _ => k ∈ s.body → Kept k k') fun k k' cs c hr hk =>
    (hr.1 (h k hk).1 (hin k hk)).1).forall₂ fun k hk k' d hr => hr hk
  exact .node hkids hkept (.keep rfl) nofun

/-- What is left in place is rebuilt around its children. -/
lemma Lowers.keep (hL : Lowers known (mk s t ks) n') (h : (mk s t ks).WellFormed)
    (hl : isLowered (mk s t ks) = false) : ∃ ks', n' = mk s t ks' ∧ Forall₂ (Lowers known) ks ks' := by
  cases hL with
  | @node _ _ _ ks' _ _ _ hks hkept hR _ =>
    have hl' := (isLowered_congr hkept h).trans hl
    cases hR with
    | keep => exact ⟨ks', rfl, hks⟩
    | decl hc | named hc | anonymous hc =>
      rw [isLowered, hc] at hl'
      cases hl'

/-- **Lowering keeps what a node declares**, if the classes that are lowered count as variables. -/
lemma Lowers.declares (hL : Lowers known n n') (h : n.WellFormed) : Declares isLowered n n' := by
  induction n generalizing n' with
  | mk s t ks ih =>
    cases hL with
    | @node _ _ _ ks' _ _ _ hks hkept hR _ =>
      have hw : (mk s t ks').WellFormed := (kept_mk hkept h).is.1
      have hl := isLowered_congr hkept h
      cases hR with
      | keep hn =>
        exact declares_node (forall₂_imp_mem hks fun k hk k' hL => ih k hk hL (h.kid hk)) (hl ▸ hn)
      | @decl _ i cls' parent? hc =>
        obtain ⟨cls, rfl, hcls⟩ := h.single rfl
        have hnames : (mk s (.classDecl i) [cls]).declaredNames = [i.name] := by
          rw [declaredNames_mk, filter_singleton, hcls.2]
          rfl
        refine ⟨rfl, fun hb => by simp [Tag.role, Role.mayBind] at hb, fun top => ?_, fun hb => ?_⟩
        · rw [declares_mk, hnames, ← hl, isLowered, hc, Bool.or_true]
          exact declares_mk never _ _ _ top
        · simp [Tag.role] at hb
      | named | anonymous => exact SuperContext.declares_of_expr rfl rfl

/-- A property of `super` stays one. -/
lemma Lowers.superKey? (hL : Lowers known n n') :
    (SuperContext.superKey? n').isSome = (SuperContext.superKey? n).isSome := by
  cases hL with
  | @node s t ks ks' _ _ _ hks _ hR _ =>
    cases hR with
    | keep =>
      cases t with
      | superMember w => rcases hks with _ | ⟨_, _ | ⟨_, _⟩⟩ <;> rfl
      | _ => rfl
    | decl | named | anonymous => rfl

lemma seals_congr (h : Forall₂ (Lowers known) ks ks') (i : Nat) : (mk s t ks').seals i = (mk s t ks).seals i := by
  unfold seals
  cases t with
  | call =>
    cases h with
    | nil => rfl
    | cons hk _ => simp [hk.superKey?]
  | _ => rfl

end Trees

/-! ## Names that the constructor binds -/

section Names

variable {known : List String} {ms ms' : List Node}

/-- A member keeps its tag. -/
lemma Lowers.member {m' : Node} (hL : Lowers known m m') (h : m.WellFormed) (hm : m.role.isMember = true) :
    m'.tag = m.tag ∧ Forall₂ (Lowers known) m.kids m'.kids := by
  obtain ⟨s, t, ks⟩ := m
  have hl : isLowered (mk s t ks) = false := by cases t <;> first | rfl | cases hm
  obtain ⟨ks', rfl, hks⟩ := hL.keep h hl
  exact ⟨rfl, hks⟩

lemma Lowers.forall_declares (h : (mk s t ks).WellFormed) (hks : Forall₂ (Lowers known) ks ks') :
    Forall₂ (Declares isLowered) ks ks' :=
  forall₂_imp_mem hks fun _ hk _ hL => hL.declares (h.kid hk)

/-- **The constructor binds the same names** when the classes in it are lowered. -/
lemma constructorNames_congr (h : (mk s .members ms).WellFormed) (hms : Forall₂ (Lowers known) ms ms') :
    constructorNames never ms' = constructorNames isLowered ms := by
  have hrel : Forall₂ (fun m m' => m.WellFormed ∧ m'.tag = m.tag ∧ Forall₂ (Lowers known) m.kids m'.kids) ms ms' :=
    forall₂_imp_mem hms fun m hm m' hL => ⟨h.kid hm, hL.member (h.kid hm) (isMember_of_mem h hm).2⟩
  have hctors := rel_filter (p := fun m : Node => m.tag == .ctor) (q := fun m => m.tag == .ctor)
    (by
      rintro m m' ⟨-, htag, -⟩
      simp only [htag]) hrel
  have hlen := ctor_length h
  unfold constructorNames Parts.ofMembers
  simp only
  generalize ms.filter (·.tag == .ctor) = l, ms'.filter (·.tag == .ctor) = l' at hctors hlen
  cases hctors with
  | nil => rfl
  | @cons m m' l l' hm hnil =>
    obtain rfl : l = [] := length_eq_zero_iff.mp (by simpa using hlen)
    cases hnil
    obtain ⟨hw, htag, hks⟩ := hm
    obtain ⟨sm, t, ks⟩ := m
    obtain ⟨sm', t', ks'⟩ := m'
    obtain rfl : t = t' := htag.symm
    have hdecl : Forall₂ (Declares isLowered) ks ks' := Lowers.forall_declares hw hks
    change (mk sm' t ks').parameters ++ ks'.flatMap (bodyNames never) =
      (mk sm t ks).parameters ++ ks.flatMap (bodyNames isLowered)
    rw [parameters_congr hdecl, flatMap_eq_of_forall₂ hdecl fun k k' _ hk => hk.bodyNames]

end Names

/-! ## Where references go -/

/-- Scopes that bind the same, as far as names are known. -/
def Agree (known : List String) : List Frame → List Frame → Prop :=
  Forall₂ fun f g => ∀ r : Ref, r.IsKnown known → (r ∈ f ↔ r ∈ g)

/-- The class that replaces `this`, if `this` belongs to the initializer of a static field and the
lowering of `super` comes to it, with what is crossed inside the initializer. -/
def receiver? : List Crossing → Option (List Crossing × Option String)
  | [] => none
  | .staticThis own :: _ => some ([], own)
  | c :: C => if c.isSealed then none else (receiver? C).map fun r => (c :: r.1, r.2)

section Receiver

variable {C D : List Crossing}

lemma receiver?_cons {c : Crossing} (hc : ∀ own, c ≠ .staticThis own) :
    receiver? (c :: C) = if c.isSealed then none else (receiver? C).map fun r => (c :: r.1, r.2) := by
  cases c <;> first | rfl | exact absurd rfl (hc _)

lemma receiver?_append_of_eq_some {r : List Crossing × Option String} (h : receiver? C = some r) :
    receiver? (C ++ D) = some r := by
  induction C generalizing r with
  | nil => cases h
  | cons c C ih =>
    by_cases hc : ∃ own, c = .staticThis own
    · obtain ⟨own, rfl⟩ := hc
      exact h
    · rw [cons_append, receiver?_cons fun own ho => hc ⟨own, ho⟩]
      rw [receiver?_cons fun own ho => hc ⟨own, ho⟩] at h
      split at h
      · cases h
      next hs =>
        obtain ⟨q, hq, rfl⟩ := Option.map_eq_some_iff.mp h
        rw [if_neg hs, ih hq, Option.map_some]

lemma receiver?_append_of_eq_none (h : receiver? C = none) : receiver? (C ++ D) =
    if C.any Crossing.isSealed then none else (receiver? D).map fun r => (C ++ r.1, r.2) := by
  induction C with
  | nil => simp
  | cons c C ih =>
    have hc : ∀ own, c ≠ .staticThis own := by
      rintro own rfl
      cases h
    rw [receiver?_cons hc] at h
    rw [cons_append, receiver?_cons hc, any_cons]
    cases hs : c.isSealed with
    | true => rfl
    | false =>
      rw [hs, if_neg Bool.false_ne_true, Option.map_eq_none_iff] at h
      rw [if_neg Bool.false_ne_true, ih h, Bool.false_or]
      split
      · rfl
      · rw [Option.map_map]
        rfl

/-- Nothing that is crossed belongs to the initializer of a static field. -/
lemma receiver?_eq_none (h : ∀ own, .staticThis own ∉ C) : receiver? C = none := by
  induction C with
  | nil => rfl
  | cons c C ih =>
    rw [receiver?_cons fun own hc => h own (hc ▸ mem_cons_self ..), ih fun own ho => h own (mem_cons_of_mem _ ho)]
    exact ite_self _

end Receiver

/-- What is crossed from a class to one of its members. -/
def outward (own : Option String) : List Crossing := [.scope [] [] false, .maker own]

/-- What becomes of the label of a reference. It stays, unless it is a `this` that a class replaces; then
the name of the class stands in its place, inside of the scope `M` of the function that makes the class. A
class without a name gets one that no scope in between binds. -/
inductive Relabeled (known : List String) (C : List Crossing) (S : List Frame) (l : Span × Tag) : Span × Tag → Prop
  | same : (l.2 = .this → receiver? C = none) → Relabeled known C S l l
  | receiver {inner : List Crossing} {own : Option String} {x : String} {I O : List Frame} {M : Frame} :
    l.2 = .this → receiver? C = some (inner, own) → inner ++ .staticThis own :: outward own <+: C →
    S = I ++ M :: O →
    Agree known I (inner.flatMap Crossing.after) → .name x ∈ M →
    own = some x ∨ own = none ∧ x ∉ known ∧ (∀ f ∈ I, .name x ∉ f) →
    Relabeled known C S l (.none, .ident x)

/-- A reference stands in a tree in the scopes that are left by what is crossed on the way to it. -/
def Placed (known : List String) (n' : Node) (C : List Crossing) (l : Span × Tag) : Prop :=
  ∃ l' S, n'.Shows l' (C.any Crossing.isSealed) S ∧ Agree known S (C.flatMap Crossing.after) ∧
    Relabeled known C S l l'

section Placed

variable {known : List String} {C D : List Crossing} {S T : List Frame} {l l' : Span × Tag}

lemma Agree.refl (S : List Frame) : Agree known S S := forall₂_same.mpr fun _ _ _ _ => .rfl

lemma Agree.append {S' T' : List Frame} (h : Agree known S S') (h' : Agree known T T') :
    Agree known (S ++ T) (S' ++ T') := rel_append h h'

lemma Relabeled.append (h : Relabeled known C S l l') (hD : ∀ own, .staticThis own ∉ D)
    (T : List Frame) : Relabeled known (C ++ D) (S ++ T) l l' := by
  cases h with
  | same hthis =>
    refine .same fun hl => ?_
    rw [receiver?_append_of_eq_none (hthis hl), receiver?_eq_none hD]
    exact ite_self _
  | receiver hl hr hC hS hI hx ho =>
    exact .receiver hl (receiver?_append_of_eq_some hr) (hC.trans (prefix_append _ _))
      (by rw [hS, append_assoc]; rfl) hI hx ho

/-- A reference stays one. -/
lemma Relabeled.isSome_ref? (h : Relabeled known C S l l') (hl : l.2.ref?.isSome = true) :
    l'.2.ref?.isSome = true := by
  cases h with
  | same => exact hl
  | receiver => rfl

end Placed

end EcmaLower.Class

/-- What is crossed on the way to a place of a script. -/
def EcmaLower.Script.crossings (s : EcmaLower.Script) (p : List Nat) : List EcmaLower.Class.Crossing :=
  EcmaLower.Class.crossings none s.tree p
