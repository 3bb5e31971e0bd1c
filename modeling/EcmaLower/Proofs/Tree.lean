import EcmaLower.Lower.Residue
import Mathlib.Tactic.Lemma

/-!
# Trees and what they contain

Induction over syntax trees, the equation of `Node.fold`, and the two ways in which this library
says that something occurs in a tree: as a relation between nodes and as a Boolean search.
-/

namespace EcmaLower

open List

variable {n a b c : Node} {m : M} {d : Nat} {p : Node → Bool} {P : Node → Prop} {M α : Type}

namespace Node

/-! ## Recursion -/

/-- Induction over trees: a property that passes from the children of a node to the node holds of
every tree. -/
@[elab_as_elim, induction_eliminator]
theorem induct (mk : ∀ s t ks, (∀ k ∈ ks, P k) → P (.mk s t ks)) (n : Node) : P n :=
  match n with
  | .mk s t ks => mk s t ks fun k _ => induct mk k
termination_by sizeOf n
decreasing_by
  have := sizeOf_lt_of_mem ‹k ∈ ks›
  simp only [Node.mk.sizeOf_spec]
  omega

section Fold

variable {α : Type} (step : Span → Tag → List (Node × α) → α)

/-- The results of a list of trees stand beside the trees. -/
lemma foldList_eq_map (ks : List Node) : foldList step ks = ks.map fun k => (k, k.fold step) := by
  induction ks with
  | nil => rfl
  | cons k ks ih => rw [foldList, ih, map_cons]

/-- The equation of the recursion over trees. -/
lemma fold_mk (s : Span) (t : Tag) (ks : List Node) :
    (mk s t ks).fold step = step s t (ks.map fun k => (k, k.fold step)) := by
  rw [fold, foldList_eq_map]

end Fold

@[simp] lemma tag_mk (s : Span) (t : Tag) (ks : List Node) : (mk s t ks).tag = t := rfl

@[simp] lemma kids_mk (s : Span) (t : Tag) (ks : List Node) : (mk s t ks).kids = ks := rfl

@[simp] lemma span_mk (s : Span) (t : Tag) (ks : List Node) : (mk s t ks).span = s := rfl

/-! ## Occurrence -/

lemma any_congr_mem {l : List α} {f g : α → Bool} (h : ∀ a ∈ l, f a = g a) : l.any f = l.any g := by
  induction l with
  | nil => rfl
  | cons a l ih =>
    rw [any_cons, any_cons, h a (mem_cons_self ..), ih fun b hb => h b (mem_cons_of_mem a hb)]

/-- `m.Within n`: the node `m` is the tree `n` or a part of it. -/
inductive Within (m : Node) : Node → Prop
  | refl : Within m m
  | kid {s : Span} {t : Tag} {ks : List Node} {k : Node} : k ∈ ks → Within m k → Within m (mk s t ks)

lemma within_mk_iff {m : Node} {s : Span} {t : Tag} {ks : List Node} :
    m.Within (mk s t ks) ↔ m = mk s t ks ∨ ∃ k ∈ ks, m.Within k := by
  constructor
  · intro h
    cases h with
    | refl => exact .inl rfl
    | kid hk h => exact .inr ⟨_, hk, h⟩
  · rintro (rfl | ⟨k, hk, h⟩)
    · exact .refl
    · exact .kid hk h

lemma Within.trans (h : a.Within b) (h' : b.Within c) : a.Within c := by
  induction h' with
  | refl => exact h
  | kid hk _ ih => exact .kid hk ih

/-- Induction over trees in which a property may also be taken from deeper parts. -/
theorem induct_within (h : ∀ s t ks, (∀ k ∈ ks, ∀ m, m.Within k → P m) → P (mk s t ks)) (n : Node) : P n := by
  suffices hall : ∀ m, m.Within n → P m from hall n .refl
  induction n with
  | mk s t ks ih =>
    intro m hm
    rcases within_mk_iff.mp hm with rfl | ⟨k, hk, hm⟩
    · exact h s t ks ih
    · exact ih k hk m hm

/-- Whether a node with property `p` occurs in a tree. -/
def any (p : Node → Bool) (n : Node) : Bool := n.fold fun span t ks => p (.mk span t (ks.map (·.1))) || ks.any (·.2)

@[simp] lemma any_mk (p : Node → Bool) (s : Span) (t : Tag) (ks : List Node) :
    (mk s t ks).any p = (p (mk s t ks) || ks.any (·.any p)) := by
  simp only [any, fold_mk, map_map, any_map, Function.comp_def, map_id']

/-- **The search finds exactly what the tree contains.** -/
theorem any_iff (p : Node → Bool) (n : Node) : n.any p = true ↔ ∃ m, m.Within n ∧ p m = true := by
  induction n with
  | mk s t ks ih =>
    simp only [any_mk, Bool.or_eq_true, any_eq_true, within_mk_iff]
    constructor
    · rintro (h | ⟨k, hk, h⟩)
      · exact ⟨_, .inl rfl, h⟩
      · obtain ⟨m, hm, hp⟩ := (ih k hk).mp h
        exact ⟨m, .inr ⟨k, hk, hm⟩, hp⟩
    · rintro ⟨m, rfl | ⟨k, hk, hm⟩, hp⟩
      · exact .inl hp
      · exact .inr ⟨k, hk, (ih k hk).mpr ⟨m, hm, hp⟩⟩

lemma any_eq_false_of_within {k : Node} (h : n.any p = false) (hk : k.Within n) : k.any p = false := by
  refine Bool.eq_false_iff.mpr fun hany => ?_
  obtain ⟨m, hm, hp⟩ := (any_iff p k).mp hany
  rw [(any_iff p n).mpr ⟨m, hm.trans hk, hp⟩] at h
  cases h

/-- A search finds nothing if what it looks for is of two kinds and neither is there. -/
lemma any_eq_false_of_or {q r : Node → Bool} (h : ∀ m, m.Within n → p m = true → q m = true ∨ r m = true)
    (hq : n.any q = false) (hr : n.any r = false) : n.any p = false := by
  refine eq_false_of_ne_true fun hp => ?_
  obtain ⟨m, hm, hpm⟩ := (any_iff p n).mp hp
  rcases h m hm hpm with hqm | hrm
  · rw [(any_iff q n).mpr ⟨m, hm, hqm⟩] at hq
    cases hq
  · rw [(any_iff r n).mpr ⟨m, hm, hrm⟩] at hr
    cases hr

lemma any_false (n : Node) : n.any (fun _ => false) = false := by
  induction n with
  | mk s t ks ih => simpa using ih

/-- What the nodes of a tree hold, in source order. -/
def collect {α : Type} (own : Node → List α) (n : Node) : List α :=
  n.fold fun span t ks => own (.mk span t (ks.map (·.1))) ++ ks.flatMap (·.2)

lemma collect_mk (own : Node → List α) (s : Span) (t : Tag) (ks : List Node) :
    (mk s t ks).collect own = own (mk s t ks) ++ ks.flatMap (·.collect own) := by
  simp only [collect, fold_mk, map_map, flatMap_map, Function.comp_def, map_id']

/-! ## Walks with a mark -/

/-- `Reaches next m a m₀ n`: a walk that starts at `n` with mark `m₀` comes to `a` with mark `m`, if
`next` gives the nodes that follow a node, with their marks. -/
inductive Reaches {M : Type} (next : M → Node → List (M × Node)) (m : M) (a : Node) : M → Node → Prop
  | here : Reaches next m a m a
  | step {m₀ m₁ : M} {n k : Node} : (m₁, k) ∈ next m₀ n → Reaches next m a m₁ k → Reaches next m a m₀ n

lemma Reaches.trans {M : Type} {next : M → Node → List (M × Node)} {m m' m'' : M} {a b c : Node}
    (h : Reaches next m' b m'' c) (h' : Reaches next m a m' b) : Reaches next m a m'' c := by
  induction h with
  | here => exact h'
  | step hk _ ih => exact .step hk ih

/-- A walk comes to a node with a property. -/
def Finds {M : Type} (next : M → Node → List (M × Node)) (P : M → Node → Prop) (m : M) (n : Node) :
    Prop := ∃ m' a, Reaches next m' a m n ∧ P m' a

lemma finds_iff {M : Type} {next : M → Node → List (M × Node)} {P : M → Node → Prop} {m : M}
    {n : Node} : Finds next P m n ↔ P m n ∨ ∃ x ∈ next m n, Finds next P x.1 x.2 := by
  constructor
  · rintro ⟨m', a, hr, hP⟩
    cases hr with
    | here => exact .inl hP
    | step hk hr => exact .inr ⟨_, hk, m', a, hr, hP⟩
  · rintro (hP | ⟨x, hx, m', a, hr, hP⟩)
    · exact ⟨m, n, .here, hP⟩
    · exact ⟨m', a, .step hx hr, hP⟩

lemma finds_iff_of_not {M : Type} {next : M → Node → List (M × Node)} {P : M → Node → Prop} {m : M}
    (h : ¬P m n) : Finds next P m n ↔ ∃ x ∈ next m n, Finds next P x.1 x.2 :=
  finds_iff.trans (or_iff_right h)

/-- A walk of less than `d` steps in search of a node; `cut` is the answer where it is cut off. -/
def search {M : Type} (next : M → Node → List (M × Node)) (P : M → Node → Prop)
    [∀ m n, Decidable (P m n)] (cut : Bool) : Nat → M → Node → Bool
  | 0, _, _ => cut
  | d + 1, m, n => decide (P m n) || (next m n).any fun x => search next P cut d x.1 x.2

section Search

variable {M : Type} {next : M → Node → List (M × Node)} {P : M → Node → Prop}
  [∀ m n, Decidable (P m n)]

lemma finds_of_search {d : Nat} {m : M} (h : search next P false d m n = true) : Finds next P m n := by
  induction d generalizing m n with
  | zero => cases h
  | succ d ih =>
    simp only [search, Bool.or_eq_true, decide_eq_true_eq, any_eq_true] at h
    exact finds_iff.mpr (h.imp_right fun ⟨x, hx, hs⟩ => ⟨x, hx, ih hs⟩)

lemma not_finds_of_search {d : Nat} {m : M} (h : search next P true d m n = false) : ¬Finds next P m n := by
  induction d generalizing m n with
  | zero => cases h
  | succ d ih =>
    simp only [search, Bool.or_eq_false_iff, decide_eq_false_iff_not, any_eq_false, Bool.not_eq_true] at h
    rw [finds_iff]
    rintro (hP | ⟨x, hx, hf⟩)
    · exact h.1 hP
    · exact ih (h.2 x hx) hf

end Search

/-! ## Properties of one node -/

/-- A property of nodes that does not look at the children. -/
def IgnoresKids (p : Node → Bool) : Prop := ∀ s t ks ks', p (mk s t ks) = p (mk s t ks')

end Node

/-- `s.Contains n`: the node `n` is a part of the script `s`. -/
def Script.Contains (s : Script) (n : Node) : Prop := ∃ k ∈ s.body, n.Within k

lemma Script.any_body_iff (s : Script) (p : Node → Bool) :
    s.body.any (·.any p) = true ↔ ∃ n, s.Contains n ∧ p n = true := by
  simp only [any_eq_true, Node.any_iff, Contains]
  constructor
  · rintro ⟨k, hk, n, hn, hp⟩
    exact ⟨n, ⟨k, hk, hn⟩, hp⟩
  · rintro ⟨n, ⟨k, hk, hn⟩, hp⟩
    exact ⟨k, hk, n, hn, hp⟩

end EcmaLower
