import EcmaLower.Lower.Names
import Mathlib.Data.List.Nodup
import Mathlib.Data.List.Perm.Subperm
import Mathlib.Tactic.Lemma

/-!
# Fresh names

A name that is drawn is one that is not taken. The candidates for a base are different names, so of
one candidate more than there are taken names, one is free.

## Main results

* `NameSupply.candidate_injective` — the candidates for a base are different names.
* `NameSupply.fresh_notMem` — a name that is drawn was free.
* `NameSupply.exists_fresh_eq_candidate` — it is the first candidate that was free.
-/

namespace EcmaLower

open List

/-- Different numbers are written differently. -/
lemma toString_injective : Function.Injective (toString : Nat → String) := by
  intro m n h
  rw [Nat.toString_eq_ofList_toDigits, Nat.toString_eq_ofList_toDigits, String.ofList_inj] at h
  rw [← Nat.ofDigitChars_ten_toDigits (n := m), h, Nat.ofDigitChars_ten_toDigits]

namespace NameSupply

lemma candidate_injective (base : String) : Function.Injective (candidate base) := by
  -- The base alone is shorter than the base with a number behind it.
  have hne : ∀ n, base ≠ base ++ toString (n + 1) := by
    intro n h
    have hlen := congrArg String.length h
    rw [String.length_append, Nat.toString_eq_ofList_toDigits, String.length_ofList] at hlen
    have := Nat.length_toDigits_pos (b := 10) (n := n + 1)
    omega
  intro m n h
  cases m with
  | zero =>
    cases n with
    | zero => rfl
    | succ n => exact absurd h (hne n)
  | succ m =>
    cases n with
    | zero => exact absurd h.symm (hne m)
    | succ n => exact toString_injective ((String.append_right_inj base).mp h)

/-- If the search ends at a taken name, all the candidates it went through are taken. -/
lemma forall_candidate_mem {taken : List String} {base : String} {steps n : Nat}
    (h : firstFree taken base steps n ∈ taken) : ∀ i ≤ steps, candidate base (n + i) ∈ taken := by
  induction steps generalizing n with
  | zero =>
    intro i hi
    obtain rfl : i = 0 := by omega
    exact h
  | succ steps ih =>
    rw [firstFree] at h
    split at h
    next hmem =>
      intro i hi
      cases i with
      | zero => simpa using hmem
      | succ i =>
        rw [show n + (i + 1) = n + 1 + i by omega]
        exact ih h i (by omega)
    next hmem => exact absurd h (by simpa using hmem)

/-- **A name that is drawn was free.** -/
theorem fresh_notMem (base : String) (s : NameSupply) : (s.fresh base).1 ∉ s.taken := by
  intro h
  have hall := forall_candidate_mem h
  have hnodup : ((range (s.taken.length + 1)).map (candidate base)).Nodup :=
    nodup_range.map (candidate_injective base)
  have hsub : (range (s.taken.length + 1)).map (candidate base) ⊆ s.taken := by
    intro x hx
    obtain ⟨i, hi, rfl⟩ := mem_map.mp hx
    have := hall i (by simpa using mem_range.mp hi |> Nat.lt_succ_iff.mp)
    rwa [Nat.zero_add] at this
  have hlen := (hnodup.subperm hsub).length_le
  rw [length_map, length_range] at hlen
  omega

/-- The search ends at a candidate, after candidates that are taken. -/
lemma exists_firstFree_eq_candidate (taken : List String) (base : String) (steps n : Nat) :
    ∃ i ≤ steps, firstFree taken base steps n = candidate base (n + i) ∧ ∀ j < i, candidate base (n + j) ∈ taken := by
  induction steps generalizing n with
  | zero => exact ⟨0, Nat.le_refl 0, rfl, nofun⟩
  | succ steps ih =>
    rw [firstFree]
    split
    next hmem =>
      obtain ⟨i, hi, heq, hall⟩ := ih (n + 1)
      refine ⟨i + 1, by omega, by rw [heq, Nat.add_right_comm n 1 i]; rfl, fun j hj => ?_⟩
      cases j with
      | zero => simpa using hmem
      | succ j =>
        rw [show n + (j + 1) = n + 1 + j by omega]
        exact hall j (by omega)
    next => exact ⟨0, Nat.zero_le _, rfl, nofun⟩

/-- **The name that is drawn is the first candidate that is free**, and it is found among the first
candidates, one more than there are taken names. -/
theorem exists_fresh_eq_candidate (base : String) (s : NameSupply) :
    ∃ i ≤ s.taken.length, (s.fresh base).1 = candidate base i ∧ candidate base i ∉ s.taken ∧
      ∀ j < i, candidate base j ∈ s.taken := by
  obtain ⟨i, hi, heq, hall⟩ := exists_firstFree_eq_candidate s.taken base s.taken.length 0
  simp only [Nat.zero_add] at heq hall
  exact ⟨i, hi, heq, heq ▸ fresh_notMem base s, hall⟩

/-- A candidate starts like its base. -/
lemma head?_candidate {base : String} {c : Char} (h : base.toList.head? = some c) (n : Nat) :
    (candidate base n).toList.head? = some c := by
  cases n with
  | zero => exact h
  | succ n => rw [candidate, String.toList_append, head?_append, h, Option.some_or]

end NameSupply

/-! ## Names that are drawn one by one -/

/-- `Drawn new taken`: the names `new` were drawn one by one when those of `taken` were not free. Like
all names that the compiler makes they start with an underscore. -/
structure Drawn (new taken : List String) : Prop where
  nodup : new.Nodup
  fresh : ∀ x ∈ new, x ∉ taken
  start : ∀ x ∈ new, x.toList.head? = some '_'

namespace Drawn

variable {new new' taken taken' : List String}

lemma nil (taken : List String) : Drawn [] taken := ⟨nodup_nil, nofun, nofun⟩

lemma one {base : String} (h : base.toList.head? = some '_') (s : NameSupply) : Drawn [(s.fresh base).1] s.taken where
  nodup := nodup_singleton _
  fresh := forall_mem_singleton.mpr (s.fresh_notMem base)
  start := by
    obtain ⟨i, -, heq, -⟩ := s.exists_fresh_eq_candidate base
    rw [forall_mem_singleton, heq]
    exact NameSupply.head?_candidate h i

lemma append (h : Drawn new taken) (h' : Drawn new' (new ++ taken)) : Drawn (new' ++ new) taken where
  nodup := nodup_append.mpr ⟨h'.nodup, h.nodup, fun x hx y hy hxy =>
    h'.fresh x hx (mem_append_left _ (hxy ▸ hy))⟩
  fresh x hx hmem := by
    rcases mem_append.mp hx with hx | hx
    · exact h'.fresh x hx (mem_append_right _ hmem)
    · exact h.fresh x hx hmem
  start x hx := (mem_append.mp hx).elim (h'.start x) (h.start x)

/-- The order of the names does not count. -/
lemma perm (h : Drawn new taken) (hp : new.Perm new') : Drawn new' taken where
  nodup := hp.nodup_iff.mp h.nodup
  fresh x hx := h.fresh x (hp.mem_iff.mpr hx)
  start x hx := h.start x (hp.mem_iff.mpr hx)

/-- Some of the names, when not so many were taken. -/
lemma sub (h : Drawn new taken) (hn : new'.Sublist new) (ht : taken' ⊆ taken) : Drawn new' taken' where
  nodup := h.nodup.sublist hn
  fresh x hx hmem := h.fresh x (hn.subset hx) (ht hmem)
  start x hx := h.start x (hn.subset hx)

/-- A name that the compiler makes is none of those that it refers to without drawing them. -/
lemma ne {x y : String} (h : Drawn new taken) (hx : x ∈ new) (hy : y.toList.head? ≠ some '_') : x ≠ y :=
  fun hxy => hy (hxy ▸ h.start x hx)

end Drawn

end EcmaLower
