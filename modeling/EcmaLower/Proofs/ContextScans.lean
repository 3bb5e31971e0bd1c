import EcmaLower.Proofs.Scopes

/-!
# What the scans of a context find

The scans `usesContext` and `usesSuper` decide whether an arrow can become a function and a method a
property. This module compares them with the scopes of a tree: a word belongs to the code around a tree
if no scope inside of it binds what the word asks for.

The scans go wherever the context goes, with two exceptions. The key of an accessor and the keys of class
members belong to the code around the object or the class, and the scans pass them over. And the scan for
`arguments` takes a label of that name for the variable.

## Main results

* `Node.ownUse_iff` — a scan finds what stands at the places it goes to.
* `Node.shares_iff` — these are the free places that it does not pass over.
* `scans_iff_refersOut` — what the scans of arrows and functions find.
-/

namespace EcmaLower

open List Build

variable {t : Tag} {ks : List Node} {s : Span} {p : List Nat}

/-- What `this` and `arguments` ask for. -/
def Tag.contextRef? : Tag → Option Ref
  | this => some .this
  | ident x | shorthand x => if x = "arguments" then some (.name "arguments") else none
  | _ => none

/-- What `super` asks for: it is looked up in the object whose method binds `this`. -/
def Tag.superRef? : Tag → Option Ref
  | superMember _ | superCall _ => some .this
  | _ => none

/-- What the scan for `arguments` takes a label to ask for. -/
def Tag.labelRef? : Tag → Option Ref
  | labeled x | breakStmt (some x) | continueStmt (some x) =>
    if x.name = "arguments" then some (.name "arguments") else none
  | _ => none

/-- What the scan for `this` and `arguments` takes a node to ask for. -/
def Tag.scannedRef? (t : Tag) : Option Ref := t.contextRef?.or t.labelRef?

lemma Tag.isContext_iff (h : "arguments" ∉ t.written) :
    t.isContext = true ↔ ∃ r, t.scannedRef? = some r := by
  cases t with
  | breakStmt x? | continueStmt x? =>
    cases x? <;> simp [isContext, scannedRef?, contextRef?, labelRef?, names, eq_comm (a := "arguments")]
  | ident x | shorthand x | labeled x =>
    simp [isContext, scannedRef?, contextRef?, labelRef?, names, eq_comm (a := "arguments")]
  | _ => simp_all [isContext, scannedRef?, contextRef?, labelRef?, names, written]

lemma Tag.eq_of_scannedRef {r : Ref} (h : t.scannedRef? = some r) : r = .this ∨ r = .name "arguments" := by
  cases t with
  | breakStmt x? | continueStmt x? =>
    cases x? <;> simp_all [scannedRef?, contextRef?, labelRef?]
  | _ => simp_all [scannedRef?, contextRef?, labelRef?]

/-- Whether a scan goes from a node to its `i`-th child. -/
def Tag.sharesKid : Tag → Nat → Bool
  | func .., _ | getter, _ | setter, _ | cls, 0 => false
  | _, _ => true

/-- Whether a scan leaves out the `i`-th child of a node with all the code in it that belongs to the code
around the node: the key of an accessor, or the members of a class with their keys. -/
def Tag.passesOver : Tag → Nat → Bool
  | getter, 0 | setter, 0 | cls, 0 => true
  | _, _ => false

namespace Node

/-- No scope of a tree that is around a place binds what is asked for. -/
def Free (n : Node) (r : Ref) (p : List Nat) : Prop := ∀ f ∈ n.scopes p, r ∉ f

instance (n : Node) (r : Ref) (p : List Nat) : Decidable (n.Free r p) :=
  inferInstanceAs (Decidable (∀ f ∈ n.scopes p, r ∉ f))

/-- The word at a place of a tree belongs to the code around the tree. -/
def RefersOut (asks : Tag → Option Ref) (n : Node) (p : List Nat) : Prop :=
  ∃ m r, n.at? p = some m ∧ asks m.tag = some r ∧ n.Free r p

/-- The word at a place of a function belongs to the function itself: no scope inside the part of it in
which the place lies binds what the word asks for. -/
def RefersToOwn (asks : Tag → Option Ref) (n : Node) (p : List Nat) : Prop :=
  ∃ i p' k, p = i :: p' ∧ n.kids[i]? = some k ∧ k.RefersOut asks p'

/-- Whether the way to a place leads through a child that the scans leave out. -/
def passesOver (n : Node) : List Nat → Bool
  | [] => false
  | i :: p => n.tag.passesOver i || (n.kids[i]?.map (·.passesOver p)).getD false

/-- Whether a scan goes to a place. -/
def shares (n : Node) : List Nat → Bool
  | [] => true
  | i :: p => n.tag.sharesKid i && (n.kids[i]?.map (·.shares p)).getD false

variable {n k : Node} {i : Nat} {r : Ref} {q : Tag → Bool}

lemma free_cons (hk : n.kids[i]? = some k) (p : List Nat) :
    n.Free r (i :: p) ↔ k.Free r p ∧ ∀ f ∈ n.between never i k, r ∉ f := by
  rw [Free, scopes_cons hk]
  simp only [mem_append, or_imp, forall_and]
  rfl

lemma passesOver_cons (hk : n.kids[i]? = some k) (p : List Nat) :
    n.passesOver (i :: p) = (n.tag.passesOver i || k.passesOver p) := by
  rw [passesOver, hk, Option.map_some, Option.getD_some]

lemma shares_cons (hk : n.kids[i]? = some k) (p : List Nat) :
    n.shares (i :: p) = (n.tag.sharesKid i && k.shares p) := by
  rw [shares, hk, Option.map_some, Option.getD_some]

/-! ## Where a scan goes -/

/-- The children that a scan goes to, by their numbers. -/
lemma mem_sharing_iff : k ∈ t.sharing ks ↔ ∃ i : Nat, ks[i]? = some k ∧ t.sharesKid i = true := by
  have hall : k ∈ ks ↔ ∃ i : Nat, ks[i]? = some k ∧ true = true := by
    simp only [mem_iff_getElem?, and_true]
  cases t with
  | func | getter | setter => simp [Tag.sharing, Tag.sharesKid]
  | cls =>
    cases ks with
    | nil => simp [Tag.sharing]
    | cons m hs =>
      rw [Tag.sharing, mem_iff_getElem?]
      constructor
      · rintro ⟨i, hi⟩
        exact ⟨i + 1, hi, rfl⟩
      · rintro ⟨i, hi, hs⟩
        cases i with
        | zero => cases hs
        | succ i => exact ⟨i, hi⟩
  | _ => exact hall

/-- **A scan finds what stands at the places it goes to.** -/
theorem ownUse_iff (hq : ∀ t, q t = true → ∀ i, t.sharesKid i = true) (n : Node) :
    n.ownUse q = true ↔ ∃ p m, n.at? p = some m ∧ q m.tag = true ∧ n.shares p = true := by
  induction n with
  | mk s t ks ih =>
    have huse : t.isUse q ks = true ↔ q t = true := by
      refine ⟨of_isUse, fun h => ?_⟩
      have hshare := hq t h 0
      cases t <;> first | exact h | cases hshare
    rw [ownUse_mk, Bool.or_eq_true, huse, any_eq_true]
    constructor
    · rintro (h | ⟨k, hk, h⟩)
      · exact ⟨[], _, rfl, h, rfl⟩
      · obtain ⟨p, m, hm, hqm, hp⟩ := (ih k (mem_of_mem_sharing hk)).mp h
        obtain ⟨i, hi, hs⟩ := mem_sharing_iff.mp hk
        exact ⟨i :: p, m, (at?_cons hi p).trans hm, hqm, by rw [shares_cons hi, hp, Bool.and_true]; exact hs⟩
    · rintro ⟨p, m, hm, hqm, hp⟩
      cases p with
      | nil =>
        obtain rfl := Option.some_inj.mp hm
        exact .inl hqm
      | cons i p =>
        obtain ⟨k, hk, hm⟩ := exists_kid_of_at? hm
        rw [shares_cons hk, Bool.and_eq_true] at hp
        exact .inr ⟨k, mem_sharing_iff.mpr ⟨i, hk, hp.1⟩, (ih k (mem_of_getElem? hk)).mpr ⟨p, m, hm, hqm, hp.2⟩⟩

/-! ## Scopes on the way of a scan -/

/-- What is asked for is bound by functions, and by nothing else in a tree. -/
def BoundByFunctions (n : Node) : Ref → Prop
  | .this => True
  | .newTarget => False
  | .name x => x = "arguments" ∧ x ∉ n.written

lemma BoundByFunctions.kid {s : Span} {t : Tag} {ks : List Node} (h : (mk s t ks).BoundByFunctions r)
    (hk : k ∈ ks) : k.BoundByFunctions r := by
  cases r with
  | this => exact trivial
  | newTarget => cases h
  | name x => exact ⟨h.1, fun hx => h.2 (written_kid hk hx)⟩

lemma BoundByFunctions.mem_ofFunction (h : n.BoundByFunctions r) : r ∈ Frame.ofFunction := by
  cases r with
  | this => exact mem_cons_self ..
  | newTarget => cases h
  | name x => exact Frame.name_mem_ofFunction.mpr h.1

/-- What functions bind is bound by no scope of a node, if `this` is not. -/
lemma BoundByFunctions.notMem_between (hr : (mk s t ks).BoundByFunctions r) (hk : k ∈ ks)
    (hthis : ∀ f ∈ (mk s t ks).between never i k, .this ∉ f) :
    ∀ f ∈ (mk s t ks).between never i k, r ∉ f := by
  intro f hf hrf
  cases r with
  | this => exact hthis f hf hrf
  | newTarget => cases hr
  | name x =>
    rcases mem_written_of_between hk hf hrf with ⟨-, h⟩ | hx
    · exact hthis f hf h
    · exact hr.2 hx

lemma this_notMem_ofNames (xs : List String) : .this ∉ Frame.ofNames xs := by simp [Frame.ofNames]

lemma this_notMem_blockScope (k : Node) : ∀ f ∈ k.blockScope never, .this ∉ f := by
  intro f hf
  unfold blockScope at hf
  split at hf
  · rw [mem_singleton.mp hf]
    exact this_notMem_ofNames _
  · cases hf

/-- Outside of classes, a child stands in a function that the node is, and the scans do not go there. Or the node
binds no `this` for it, and the scans go there unless they pass it over. -/
lemma between_cases (s : Span) (ks : List Node) (i : Nat) (k : Node) (ht : t.role.isClassPart = false) :
    (t.sharesKid i = false ∧ ∃ xs, (mk s t ks).between never i k = [Frame.ofFunction ++ Frame.ofNames xs]) ∨
    (t.sharesKid i = !t.passesOver i) ∧ ∀ f ∈ (mk s t ks).between never i k, .this ∉ f := by
  have hnil : ∀ f ∈ ([] : List Frame), .this ∉ f := fun f hf => by cases hf
  cases t with
  | func => exact .inl ⟨rfl, _, rfl⟩
  | getter | setter =>
    cases i with
    | zero => exact .inr ⟨rfl, hnil⟩
    | succ i => exact .inl ⟨rfl, _, rfl⟩
  | ctor | staticBlock | field => cases ht
  | cls => exact .inr ⟨by cases i <;> rfl, hnil⟩
  | arrow | catchClause | classDecl | classExpr =>
    refine .inr ⟨rfl, fun f hf => ?_⟩
    rw [mem_singleton.mp hf]
    exact this_notMem_ofNames _
  | funcExpr =>
    refine .inr ⟨rfl, fun f hf => ?_⟩
    obtain ⟨y, -, rfl⟩ := mem_map.mp hf
    exact this_notMem_ofNames _
  | switchStmt =>
    refine .inr ⟨rfl, fun f hf => ?_⟩
    simp only [between, tag_mk] at hf
    split at hf
    · cases hf
    · rw [mem_singleton.mp hf]
      exact this_notMem_ofNames _
  | forStmt | forIn | forOf =>
    refine .inr ⟨rfl, fun f hf => ?_⟩
    rcases mem_append.mp hf with hf | hf
    · exact this_notMem_blockScope k f hf
    · rw [mem_singleton.mp hf]
      exact this_notMem_ofNames _
  | block | withStmt | labeled | ifStmt | caseClause | defaultClause | tryStmt | whileStmt | doWhile =>
    exact .inr ⟨rfl, this_notMem_blockScope k⟩
  | _ => exact .inr ⟨rfl, hnil⟩

/-- Outside of classes, a scan goes to the children that stand in no function and that it does not
leave out. -/
lemma sharesKid_iff (hr : (mk s t ks).BoundByFunctions r) (ht : t.role.isClassPart = false)
    (hk : ks[i]? = some k) : t.sharesKid i = true ↔
      (∀ f ∈ (mk s t ks).between never i k, r ∉ f) ∧ t.passesOver i = false := by
  rcases between_cases s ks i k ht with ⟨hs, xs, hb⟩ | ⟨hs, hthis⟩
  · rw [hs, hb]
    refine iff_of_false Bool.false_ne_true fun h => ?_
    exact h.1 _ (mem_singleton.mpr rfl) (mem_append_left _ hr.mem_ofFunction)
  · rw [hs, Bool.not_eq_true']
    exact (and_iff_right (hr.notMem_between (mem_of_getElem? hk) hthis)).symm

lemma WellFormed.not_isClassPart_of_sharesKid (h : (mk s t ks).WellFormed) (ht : t.role.isClassPart = false)
    (hk : ks[i]? = some k) (hs : t.sharesKid i = true) : k.role.isClassPart = false := by
  by_cases hcls : t = .cls
  · subst hcls
    obtain ⟨_, _, _, hs', ⟨⟩, -, hexpr, -⟩ := Class.cls_shape ⟨h, rfl⟩
    cases i with
    | zero => cases hs
    | succ i =>
      rw [(hexpr k (mem_of_getElem? hk)).2]
      rfl
  · exact h.not_isClassPart hcls ht (mem_of_getElem? hk)

/-- **A scan goes to the free places that it does not pass over.** -/
theorem shares_iff {m : Node} (h : n.WellFormed) (hc : n.role.isClassPart = false)
    (hr : n.BoundByFunctions r) (hm : n.at? p = some m) :
    n.shares p = true ↔ n.Free r p ∧ n.passesOver p = false := by
  induction p generalizing n with
  | nil => exact ⟨fun _ => ⟨nofun, rfl⟩, fun _ => rfl⟩
  | cons i p ih =>
    obtain ⟨s, t, ks⟩ := n
    obtain ⟨k, hk, hm⟩ := exists_kid_of_at? hm
    have hstep := sharesKid_iff hr hc hk
    have hmem : k ∈ ks := mem_of_getElem? hk
    rw [shares_cons hk, Bool.and_eq_true, free_cons hk, passesOver_cons hk, Bool.or_eq_false_iff]
    constructor
    · rintro ⟨hs, hp⟩
      have hpart := h.not_isClassPart_of_sharesKid hc hk hs
      have hkid := (ih (h.kid hmem) hpart (hr.kid hmem) hm).mp hp
      exact ⟨⟨hkid.1, (hstep.mp hs).1⟩, (hstep.mp hs).2, hkid.2⟩
    · rintro ⟨⟨hfree, hf⟩, ho, hp⟩
      have hs := hstep.mpr ⟨hf, ho⟩
      have hpart := h.not_isClassPart_of_sharesKid hc hk hs
      exact ⟨hs, (ih (h.kid hmem) hpart (hr.kid hmem) hm).mpr ⟨hfree, hp⟩⟩

/-! ## Words -/

lemma written_subset_of_at? {m : Node} (hm : n.at? p = some m) : m.tag.written ⊆ n.written := by
  induction p generalizing n with
  | nil =>
    obtain rfl := Option.some_inj.mp hm
    obtain ⟨s, t, ks⟩ := n
    rw [written_mk]
    exact subset_append_left ..
  | cons i p ih =>
    obtain ⟨s, t, ks⟩ := n
    obtain ⟨k, hk, hm⟩ := exists_kid_of_at? hm
    exact Subset.trans (ih hm) (written_kid (mem_of_getElem? hk))

/-- A scan for words finds those that belong to the code around the tree, where it does not pass them
over. -/
lemma ownUse_iff_refersOut {asks : Tag → Option Ref} (h : n.WellFormed) (hc : n.role.isClassPart = false)
    (hq : ∀ t, q t = true → ∀ i, t.sharesKid i = true)
    (hask : ∀ p m, n.at? p = some m → (q m.tag = true ↔ ∃ r, asks m.tag = some r))
    (hr : ∀ t r, asks t = some r → n.BoundByFunctions r) :
    n.ownUse q = true ↔ ∃ p, n.RefersOut asks p ∧ n.passesOver p = false := by
  rw [ownUse_iff hq]
  constructor
  · rintro ⟨p, m, hm, hqm, hp⟩
    obtain ⟨r, hrm⟩ := (hask p m hm).mp hqm
    obtain ⟨hfree, hover⟩ := (shares_iff h hc (hr _ _ hrm) hm).mp hp
    exact ⟨p, ⟨m, r, hm, hrm, hfree⟩, hover⟩
  · rintro ⟨p, ⟨m, r, hm, hrm, hfree⟩, hover⟩
    exact ⟨p, m, hm, (hask p m hm).mpr ⟨r, hrm⟩, (shares_iff h hc (hr _ _ hrm) hm).mpr ⟨hfree, hover⟩⟩

/-- The uses of `super` that a scan finds. -/
lemma ownUse_isSuper_iff (h : n.WellFormed) (hc : n.role.isClassPart = false) :
    n.ownUse Tag.isSuper = true ↔ ∃ p, n.RefersOut Tag.superRef? p ∧ n.passesOver p = false := by
  refine ownUse_iff_refersOut h hc (fun t ht i => ?_) (fun p m _ => ?_) fun t r ht => ?_
  · cases t <;> first | rfl | cases ht
  · cases m.tag <;> simp [Tag.isSuper, Tag.superRef?]
  · have hthis : r = .this := by cases t <;> simp_all [Tag.superRef?]
    rw [hthis]
    exact trivial

lemma refersOut_scannedRef : n.RefersOut Tag.scannedRef? p ↔
    n.RefersOut Tag.contextRef? p ∨ n.RefersOut Tag.labelRef? p := by
  have hor : ∀ (t : Tag) (r : Ref), t.scannedRef? = some r ↔ t.contextRef? = some r ∨ t.labelRef? = some r := by
    intro t r
    cases t <;> simp [Tag.scannedRef?, Tag.contextRef?, Tag.labelRef?]
  constructor
  · rintro ⟨m, r, hm, hr, hfree⟩
    exact ((hor _ _).mp hr).imp (fun hr => ⟨m, r, hm, hr, hfree⟩) fun hr => ⟨m, r, hm, hr, hfree⟩
  · rintro (⟨m, r, hm, hr, hfree⟩ | ⟨m, r, hm, hr, hfree⟩)
    · exact ⟨m, r, hm, (hor _ _).mpr (.inl hr), hfree⟩
    · exact ⟨m, r, hm, (hor _ _).mpr (.inr hr), hfree⟩

/-- The uses of `this` and `arguments` that a scan finds. -/
lemma ownUse_isContext_iff (h : n.WellFormed) (hc : n.role.isClassPart = false)
    (hargs : "arguments" ∉ n.written) : n.ownUse Tag.isContext = true ↔
      ∃ p, n.RefersOut Tag.scannedRef? p ∧ n.passesOver p = false := by
  refine ownUse_iff_refersOut h hc (fun t ht i => ?_) (fun p m hm => ?_) fun t r ht => ?_
  · cases t <;> first | rfl | cases ht
  · exact Tag.isContext_iff fun hx => hargs (written_subset_of_at? hm hx)
  · rcases Tag.eq_of_scannedRef ht with rfl | rfl
    · exact trivial
    · exact ⟨rfl, hargs⟩

end Node

open Node

/-! ## Arrows and functions -/

section

variable {s : Span} {parts : List Node}

lemma ownUse_arrow {q : Tag → Bool} {a : Bool} (hq : q (.arrow a) = false) :
    (mk s (.arrow a) parts).ownUse q = parts.any (·.ownUse q) := by
  rw [ownUse_mk, show Tag.isUse q (.arrow a) parts = false from hq, Bool.false_or]
  rfl

/-- The uses of `super` that the scan of a function finds belong to the function. -/
lemma usesSuper_iff_refersToOwn {a g : Bool} (h : (mk s (.func a g) parts).WellFormed) :
    usesSuper parts = true ↔ ∃ p, (mk s (.func a g) parts).RefersToOwn Tag.superRef? p ∧
      (mk s (.func a g) parts).passesOver p = false := by
  have hkid : ∀ k ∈ parts, k.ownUse Tag.isSuper = true ↔
      ∃ p, k.RefersOut Tag.superRef? p ∧ k.passesOver p = false := fun k hk =>
    ownUse_isSuper_iff (h.kid hk) (h.not_isClassPart (by simp) rfl hk)
  rw [usesSuper, any_eq_true]
  constructor
  · rintro ⟨k, hk, huse⟩
    obtain ⟨p, hp, hover⟩ := (hkid k hk).mp huse
    obtain ⟨i, hi⟩ := mem_iff_getElem?.mp hk
    exact ⟨i :: p, ⟨i, p, k, rfl, hi, hp⟩, (passesOver_cons hi p).trans hover⟩
  · rintro ⟨_, ⟨i, p, k, rfl, hi, hp⟩, hover⟩
    have hk : k ∈ parts := mem_of_getElem? hi
    exact ⟨k, hk, (hkid k hk).mpr ⟨p, hp, (passesOver_cons hi p).symm.trans hover⟩⟩

end

/-- **What the scans of a context find.** An arrow is said to use `this` or `arguments` exactly if one of
them belongs to the code around the arrow, or a label is called `arguments`, and to use `super` exactly if
one belongs to the code around it; a function is said to use `super` exactly if one belongs to the function.
Not counted are the words in the keys of accessors and in the members of classes, although the keys belong
to the code around the object or the class. -/
theorem scans_iff_refersOut {s s' : Span} {a a' g : Bool} {parts parts' : List Node}
    (harrow : (mk s (.arrow a) parts).WellFormed) (hfunc : (mk s' (.func a' g) parts').WellFormed) :
    ("arguments" ∉ (mk s (.arrow a) parts).written → (usesContext parts = true ↔
      ∃ p, ((mk s (.arrow a) parts).RefersOut Tag.contextRef? p ∨
          (mk s (.arrow a) parts).RefersOut Tag.labelRef? p) ∧
        (mk s (.arrow a) parts).passesOver p = false)) ∧
    (usesSuper parts = true ↔ ∃ p, (mk s (.arrow a) parts).RefersOut Tag.superRef? p ∧
      (mk s (.arrow a) parts).passesOver p = false) ∧
    (usesSuper parts' = true ↔ ∃ p, (mk s' (.func a' g) parts').RefersToOwn Tag.superRef? p ∧
      (mk s' (.func a' g) parts').passesOver p = false) := by
  refine ⟨fun hargs => ?_, ?_, usesSuper_iff_refersToOwn hfunc⟩
  · rw [usesContext, ← ownUse_arrow (s := s) (a := a) rfl, ownUse_isContext_iff harrow rfl hargs]
    simp only [refersOut_scannedRef]
  · rw [usesSuper, ← ownUse_arrow (s := s) (a := a) rfl, ownUse_isSuper_iff harrow rfl]

/-- `{ get [key]() {} }`. -/
def objectWithAccessor (key : Node) : Node := make .object [make .getter [computedKey key, block []]]

/-- The arrow `() => [() => this, { get [this]() {} }]`, and the function
`function() { return () => super.k; }` of a method. -/
theorem scans_iff_refersOut_nestedArrows :
    let parts := [params [], array [make (.arrow false) [params [], this],
      objectWithAccessor this]]
    let parts' := [params [], block [returnStmt (make (.arrow false) [params [],
      make (.superMember .none) [make (.keyName "k") []]])]]
    let arrow := make (.arrow false) parts
    let f := make (.func false false) parts'
    arrow.WellFormed ∧ "arguments" ∉ arrow.written ∧ f.WellFormed ∧
      (∃ p, (arrow.RefersOut Tag.contextRef? p ∨ arrow.RefersOut Tag.labelRef? p) ∧
        arrow.passesOver p = false) ∧
      (¬∃ p, arrow.RefersOut Tag.superRef? p ∧ arrow.passesOver p = false) ∧
      ∃ p, f.RefersToOwn Tag.superRef? p ∧ f.passesOver p = false := by
  intro parts parts' arrow f
  have hw : arrow.WellFormed := by decide
  have hw' : f.WellFormed := by decide
  have hargs : "arguments" ∉ arrow.written := by decide
  obtain ⟨hcontext, hsuper, hown⟩ := scans_iff_refersOut hw hw'
  exact ⟨hw, hargs, hw', (hcontext hargs).mp (by decide), fun h => absurd (hsuper.mpr h) (by decide),
    hown.mp (by decide)⟩

/-- **Words that are passed over**: `() => ({ get [this]() {} })` refers to the `this` of the code around it,
`() => ({ get [super.k]() {} })` to its `super`, and a method with the body
`{ return { get [super.k]() {} }; }` to its own `super`. The scans find none of them. -/
theorem scans_miss_accessor_keys :
    let word := make (.superMember .none) [make (.keyName "k") []]
    let arrow := fun key => make (.arrow false) [params [], paren (objectWithAccessor key)]
    let f := func [] [returnStmt (objectWithAccessor word)]
    (arrow this).WellFormed ∧ (arrow word).WellFormed ∧ f.WellFormed ∧
      (arrow this).RefersOut Tag.contextRef? [1, 0, 0, 0, 0] ∧ usesContext (arrow this).kids = false ∧
      (arrow word).RefersOut Tag.superRef? [1, 0, 0, 0, 0] ∧ usesSuper (arrow word).kids = false ∧
      f.RefersToOwn Tag.superRef? [1, 0, 0, 0, 0, 0] ∧ usesSuper f.kids = false := by
  refine ⟨by decide, by decide, by decide, ⟨_, .this, rfl, rfl, by decide⟩, by decide,
    ⟨_, .this, rfl, rfl, by decide⟩, by decide, ⟨1, _, _, rfl, rfl, _, .this, rfl, rfl, by decide⟩, by decide⟩

end EcmaLower
