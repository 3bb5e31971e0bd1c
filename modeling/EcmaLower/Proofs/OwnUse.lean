import EcmaLower.Lower.Owner
import EcmaLower.Proofs.Tree

/-!
# Uses of the context of a function

`Node.ownUse` looks for a tag in the code that shares the context of the root of a tree. This module
gives its equation, one case for each way in which a node treats its children.
-/

namespace EcmaLower

/-- The children of a node that share its context, by its tag: those of a function or an accessor have
one of their own, and of a class only the heritage shares it. -/
def Tag.sharing (t : Tag) (ks : List Node) : List Node :=
  match t, ks with
  | .func .., _ | .getter, _ | .setter, _ => []
  | .cls, _ :: heritage => heritage
  | _, ks => ks

/-- Whether a tag itself counts as a use. -/
def Tag.isUse (q : Tag → Bool) (t : Tag) (ks : List Node) : Bool :=
  match t, ks with
  | .func .., _ | .getter, _ | .setter, _ | .cls, _ :: _ => false
  | t, _ => q t

namespace Node

variable {q : Tag → Bool}

/-- **The uses in a tree are those at its root and in the children that share its context.** -/
theorem ownUse_mk (s : Span) (t : Tag) (ks : List Node) :
    (mk s t ks).ownUse q = (t.isUse q ks || (t.sharing ks).any (·.ownUse q)) := by
  rw [ownUse, fold_mk]
  cases t with
  | cls =>
    cases ks with
    | nil => rfl
    | cons k ks => simp only [Tag.isUse, Tag.sharing, List.map_cons, List.any_map, Bool.false_or]; rfl
  | func a g | getter | setter => rfl
  | _ => simp only [Tag.isUse, Tag.sharing, List.any_map]; rfl

lemma mem_of_mem_sharing {t : Tag} {ks : List Node} {k : Node} (h : k ∈ t.sharing ks) : k ∈ ks := by
  unfold Tag.sharing at h
  split at h
  · cases h
  · cases h
  · cases h
  · exact List.mem_cons_of_mem _ h
  · exact h

lemma of_isUse {t : Tag} {ks : List Node} (h : t.isUse q ks = true) : q t = true := by
  unfold Tag.isUse at h
  split at h <;> first | exact h | cases h

/-- What shares the context of a tree is part of it. -/
lemma any_of_ownUse {n : Node} (h : n.ownUse q = true) : n.any (fun m => q m.tag) = true := by
  induction n with
  | mk s t ks ih =>
    rw [ownUse_mk, Bool.or_eq_true, List.any_eq_true] at h
    rw [any_mk, Bool.or_eq_true, List.any_eq_true]
    rcases h with h | ⟨k, hk, h⟩
    · exact .inl (of_isUse h)
    · exact .inr ⟨k, mem_of_mem_sharing hk, ih k (mem_of_mem_sharing hk) h⟩

end Node

/-- Where there is no `super`, none is used. -/
lemma usesSuper_eq_false {parts : List Node} (h : ∀ k ∈ parts, k.any (·.tag.isSuper) = false) :
    usesSuper parts = false := by
  rw [usesSuper, List.any_eq_false]
  intro k hk huse
  have := Node.any_of_ownUse huse
  rw [h k hk] at this
  cases this

end EcmaLower
