import EcmaLower.Arith
import EcmaLower.Proofs.Tree
import Mathlib.Data.List.Forall2

/-!
# Traversals with a state

Two passes walk a tree with a state, from which they draw names and in which they count what they
lower. What such a walk makes of a list of children is a list of results, one for each child, and a
count that is the sum of theirs.
-/

namespace EcmaLower

open List

variable {P P' : Node → Prop} {R : Node → Node → List String → Nat → Prop} {ks ks' : List Node} {cs : List String}
  {c : Nat} {α σ : Type}

/-- `Each R ks ks' c`: the nodes of two lists are related one by one, with counts that sum up to
`c`. -/
inductive Each (R : Node → Node → Nat → Prop) : List Node → List Node → Nat → Prop
  | nil : Each R [] [] 0
  | cons {k k' : Node} {ks ks' : List Node} {c d : Nat} :
    R k k' c → Each R ks ks' d → Each R (k :: ks) (k' :: ks') (c + d)

lemma map_eq_of_forall₂ {β γ : Type} {R : α → β → Prop} {l : List α} {l' : List β} {f : α → γ} {g : β → γ}
    (h : Forall₂ R l l') (hm : ∀ k k', R k k' → g k' = f k) : l'.map g = l.map f := by
  induction h with
  | nil => rfl
  | cons hk _ ih => rw [map_cons, map_cons, hm _ _ hk, ih]

section Forall₂

variable {R : Node → Node → Prop} {ks ks' : List Node}

lemma forall_of_forall₂ (h : Forall₂ R ks ks') (hm : ∀ k k', R k k' → P k') : ∀ k' ∈ ks', P k' := by
  induction h with
  | nil => simp
  | cons hk _ ih => exact forall_mem_cons.mpr ⟨hm _ _ hk, ih⟩

lemma exists_iff_of_forall₂ (h : Forall₂ R ks ks') (hm : ∀ k ∈ ks, ∀ k', R k k' → (P' k' ↔ P k)) :
    (∃ k ∈ ks', P' k) ↔ ∃ k ∈ ks, P k := by
  induction h with
  | nil => simp
  | cons hk _ ih =>
    simp only [mem_cons, exists_eq_or_imp, hm _ (by simp) _ hk,
      ih fun k hmem => hm k (by simp [hmem])]

end Forall₂

namespace Each

variable {R S : Node → Node → Nat → Prop} {ks ks' : List Node} {c : Nat}

lemma mono (h : Each R ks ks' c) (hm : ∀ k ∈ ks, ∀ k' d, R k k' d → S k k' d) : Each S ks ks' c := by
  induction h with
  | nil => exact .nil
  | cons hk _ ih =>
    exact .cons (hm _ (by simp) _ _ hk) (ih fun k hmem => hm k (by simp [hmem]))

lemma forall₂ {S : Node → Node → Prop} (h : Each R ks ks' c)
    (hm : ∀ k ∈ ks, ∀ k' d, R k k' d → S k k') : Forall₂ S ks ks' := by
  induction h with
  | nil => exact .nil
  | cons hk _ ih => exact .cons (hm _ (by simp) _ _ hk) (ih fun k hmem => hm k (by simp [hmem]))

lemma forall₂_of_count_eq_zero (h : Each R ks ks' c) (hc : c = 0) : Forall₂ (fun k k' => R k k' 0) ks ks' := by
  induction h with
  | nil => exact .nil
  | cons hk _ ih =>
    obtain ⟨rfl, rfl⟩ := Nat.add_eq_zero_iff.mp hc
    exact .cons hk (ih rfl)

lemma map_eq {f g : Node → α} (h : Each R ks ks' c) (hm : ∀ k ∈ ks, ∀ k' d, R k k' d → g k' = f k) :
    ks'.map g = ks.map f :=
  map_eq_of_forall₂ (h.forall₂ hm) fun _ _ h => h

lemma any_eq {f g : Node → Bool} (h : Each R ks ks' c)
    (hm : ∀ k ∈ ks, ∀ k' d, R k k' d → g k' = f k) : ks'.any g = ks.any f := by
  simpa [any_map] using congrArg (any · id) (h.map_eq hm)

lemma exists_iff (h : Each R ks ks' c) (hm : ∀ k ∈ ks, ∀ k' d, R k k' d → (P' k' ↔ P k)) :
    (∃ k ∈ ks', P' k) ↔ ∃ k ∈ ks, P k :=
  exists_iff_of_forall₂ (h.forall₂ hm) fun _ _ _ h => h

lemma forall_right (h : Each R ks ks' c) (hm : ∀ k ∈ ks, ∀ k' d, R k k' d → P k') : ∀ k' ∈ ks', P k' :=
  forall_of_forall₂ (h.forall₂ hm) fun _ _ h => h

lemma exists_right (h : Each R ks ks' c) {k : Node} (hk : k ∈ ks) : ∃ k' ∈ ks', ∃ d, R k k' d := by
  induction h with
  | nil => cases hk
  | cons hr _ ih =>
    rcases mem_cons.mp hk with rfl | hk
    · exact ⟨_, mem_cons_self .., _, hr⟩
    · obtain ⟨k', hmem, d, hd⟩ := ih hk
      exact ⟨k', mem_cons_of_mem _ hmem, d, hd⟩

/-- The counts of the elements of a list add up. -/
lemma count_eq {f : Node → Nat} (h : Each R ks ks' c) (hm : ∀ k ∈ ks, ∀ k' d, R k k' d → d = f k) :
    c = total f ks := by
  induction h with
  | nil => rfl
  | cons hk _ ih => rw [total, hm _ (by simp) _ _ hk, ih fun k hmem => hm k (by simp [hmem])]

/-- The count of a list is zero iff those of its elements are. -/
lemma count_eq_zero_iff (h : Each R ks ks' c) (hm : ∀ k ∈ ks, ∀ k' d, R k k' d → (d = 0 ↔ P k)) :
    c = 0 ↔ ∀ k ∈ ks, P k := by
  induction h with
  | nil => simp
  | cons hk _ ih =>
    rw [Nat.add_eq_zero_iff, hm _ (by simp) _ _ hk, ih fun k hmem => hm k (by simp [hmem]),
      forall_mem_cons]

/-- Where nothing is counted, nothing changes. -/
lemma eq_of_count_eq_zero (h : Each R ks ks' c) (hc : c = 0) (hm : ∀ k ∈ ks, ∀ k', R k k' 0 → k' = k) : ks' = ks := by
  induction h with
  | nil => rfl
  | cons hk _ ih =>
    obtain ⟨rfl, rfl⟩ := Nat.add_eq_zero_iff.mp hc
    rw [hm _ (by simp) _ hk, ih rfl fun k hmem => hm k (by simp [hmem])]

end Each

/-- **A traversal relates lists if it relates their elements.** `I` is what each step keeps of the
state, and `count` reads the count off it. -/
theorem each_mapM {R : Node → Node → Nat → Prop} (I : σ → Prop) (count : σ → Nat) (f : Node → StateM σ Node)
    (ks : List Node) (h : ∀ k ∈ ks, ∀ w, I w → I (f k w).2 ∧ ∃ c, count (f k w).2 = count w + c ∧ R k (f k w).1 c)
    (w : σ) (hw : I w) : I ((ks.mapM f) w).2 ∧
      ∃ c, count ((ks.mapM f) w).2 = count w + c ∧ Each R ks ((ks.mapM f) w).1 c := by
  induction ks generalizing w with
  | nil => exact ⟨hw, 0, rfl, .nil⟩
  | cons k ks ih =>
    obtain ⟨hI, c, hc, hR⟩ := h k (by simp) w hw
    obtain ⟨hI', d, hd, hE⟩ := ih (fun k hmem => h k (by simp [hmem])) (f k w).2 hI
    have hrun : ((k :: ks).mapM f) w = ((f k w).1 :: ((ks.mapM f) (f k w).2).1, ((ks.mapM f) (f k w).2).2) := by
      rw [mapM_cons]
      rfl
    rw [hrun]
    exact ⟨hI', c + d, by simp only [hd, hc, Nat.add_assoc], .cons hR hE⟩

/-! ## Names -/

/-- `EachNamed R ks ks' cs c`: the nodes of two lists are related one by one, with names and counts
that make up `cs` and `c`. -/
inductive EachNamed (R : Node → Node → List String → Nat → Prop) : List Node → List Node → List String → Nat → Prop
  | nil : EachNamed R [] [] [] 0
  | cons {k k' : Node} {ks ks' : List Node} {cs ds : List String} {c d : Nat} :
    R k k' cs c → EachNamed R ks ks' ds d → EachNamed R (k :: ks) (k' :: ks') (cs ++ ds) (c + d)

lemma EachNamed.mono {S : Node → Node → List String → Nat → Prop} (h : EachNamed R ks ks' cs c)
    (hm : ∀ k ∈ ks, ∀ k' cs c, R k k' cs c → S k k' cs c) : EachNamed S ks ks' cs c := by
  induction h with
  | nil => exact .nil
  | cons hk _ ih => exact .cons (hm _ (by simp) _ _ _ hk) (ih fun k hmem => hm k (by simp [hmem]))

lemma EachNamed.each {S : Node → Node → Nat → Prop} (hRS : ∀ k k' cs c, R k k' cs c → S k k' c)
    (h : EachNamed R ks ks' cs c) : Each S ks ks' c := by
  induction h with
  | nil => exact .nil
  | cons hk _ ih => exact .cons (hRS _ _ _ _ hk) ih

/-- The names of a list of nodes, one list for each. -/
lemma EachNamed.exists_names (h : EachNamed R ks ks' cs c) : ∃ css : List (List String),
      css.flatten = cs ∧ ∀ (i : Nat) (k : Node), ks[i]? = some k → ∃ k' ds d,
        ks'[i]? = some k' ∧ css[i]? = some ds ∧ R k k' ds d := by
  induction h with
  | nil => exact ⟨[], rfl, by simp⟩
  | @cons k k' ks ks' cs ds c d hk _ ih =>
    obtain ⟨css, rfl, hcss⟩ := ih
    refine ⟨cs :: css, rfl, fun i l hl => ?_⟩
    cases i with
    | zero =>
      obtain rfl : k = l := by simpa using hl
      exact ⟨k', cs, c, rfl, rfl, hk⟩
    | succ i => exact hcss i l hl

/-- **A traversal relates lists if it relates their elements**, with the names that it draws. `M` says
how the state moves. -/
theorem eachNamed_mapM {M : σ → σ → List String → Nat → Prop} (hrefl : ∀ w, M w w [] 0)
    (htrans : ∀ {w w' w'' cs ds c d}, M w w' cs c → M w' w'' ds d → M w w'' (cs ++ ds) (c + d))
    (f : Node → StateM σ Node) (ks : List Node) (h : ∀ k ∈ ks, ∀ w, ∃ cs c, M w (f k w).2 cs c ∧ R k (f k w).1 cs c)
    (w : σ) : ∃ cs c, M w ((ks.mapM f) w).2 cs c ∧ EachNamed R ks ((ks.mapM f) w).1 cs c := by
  induction ks generalizing w with
  | nil => exact ⟨[], 0, hrefl w, .nil⟩
  | cons k ks ih =>
    obtain ⟨cs, c, hM, hR⟩ := h k (by simp) w
    obtain ⟨ds, d, hM', hE⟩ := ih (fun k hmem => h k (by simp [hmem])) (f k w).2
    have hrun : ((k :: ks).mapM f) w = ((f k w).1 :: ((ks.mapM f) (f k w).2).1, ((ks.mapM f) (f k w).2).2) := by
      rw [mapM_cons]
      rfl
    rw [hrun]
    exact ⟨cs ++ ds, c + d, htrans hM hM', .cons hR hE⟩

/-- The results that stand beside the children of a node, in order. -/
lemma mapM_snd {m : Type → Type} [Monad m] [LawfulMonad m] (f : Node → m α) (ks : List Node) :
    (ks.map fun k => (k, f k)).mapM (·.2) = ks.mapM f := by
  induction ks with
  | nil => rfl
  | cons k ks ih => rw [map_cons, mapM_cons, mapM_cons, ih]

end EcmaLower
