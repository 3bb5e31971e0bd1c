import EcmaLower.Proofs.ClassNames

/-!
# Code that the lowering of `super` leaves alone

Functions, accessors and classes in the code of a member have a `super` of their own. They come out of the lowering
as they went in, although the code around them is put together anew. Code outside of them that uses neither `super`
nor a receiver that is replaced comes out as it went in, too.

## Main results

* `SuperContext.frames_untouched` — what the lowering of `super` leaves alone.
-/

namespace EcmaLower

open List

namespace Node

/-- The outermost functions, accessors and classes of a tree, in source order. -/
def frames (n : Node) : List Node :=
  n.fold fun s t ks => if t.isFrame then [.mk s t (ks.map (·.1))] else ks.flatMap (·.2)

variable {s : Span} {t : Tag} {ks : List Node}

lemma frames_of_isFrame (ht : t.isFrame = true) : (mk s t ks).frames = [mk s t ks] := by
  rw [frames, fold_mk, if_pos ht, map_map]
  exact congrArg (fun l => [mk s t l]) (map_id ks)

lemma frames_mk (ht : t.isFrame = false) : (mk s t ks).frames = ks.flatMap frames := by
  rw [frames, fold_mk, if_neg (Bool.eq_false_iff.mp ht), flatMap_map]
  rfl

/-- The frames of a tree have a property if each of them is a part that has it. -/
lemma confined_frames_iff {S : Node → Prop} {n : Node} :
    n.Confined (·.isFrame = true) (fun f => f.tag.isFrame = true ∧ S f) ↔ ∀ f ∈ n.frames, S f := by
  induction n with
  | mk s t ks ih =>
    cases ht : t.isFrame with
    | true =>
      rw [frames_of_isFrame ht, forall_mem_singleton]
      refine ⟨fun h => ?_, fun h => .part ⟨ht, h⟩⟩
      cases h with
      | part h => exact h.2
      | node hnot => exact absurd ht hnot
    | false =>
      have hbad := Bool.eq_false_iff.mp ht
      rw [frames_mk ht]
      simp only [mem_flatMap, forall_exists_index, and_imp]
      refine ⟨fun h f k hk => (ih k hk).mp (h.kids (fun hS => hbad hS.1) k hk) f, fun h => ?_⟩
      exact .node hbad fun k hk => (ih k hk).mpr fun f => h f k hk

end Node

open Node

namespace SuperContext

variable {c : SuperContext}

lemma passive_isFrame (S : Node → Prop) : Class.Passive (·.isFrame = true) (fun f => f.tag.isFrame = true ∧ S f) where
  generated {t} ht := by cases t <;> first | exact Bool.false_ne_true | cases ht
  this := Bool.false_ne_true
  super {n} h w hw := by
    rw [hw] at h
    cases h.1
  lower {n} h c := by
    obtain ⟨s, t, ks⟩ := n
    refine lower_closed ?_
    cases t <;> first | rfl | cases h.1

/-- **Only the code of a member is lowered.** Each outermost function, accessor or class in the result is one of the
code that is lowered, as it was, or of the expressions for the parent and the receiver; where these are names, as they
are in a class, it is one of the code. Code outside of which nothing uses `super`, nor `this` if that is replaced, comes
out as it went in. -/
theorem frames_untouched (c : SuperContext) (n : Node) :
    (∀ f ∈ (c.lower n).frames, f ∈ n.frames ∨ f ∈ c.parent.frames ∨ ∃ r ∈ c.receiver?, f ∈ r.frames) ∧
    ((∃ x, c.parent = Build.ident x) → (∀ r ∈ c.receiver?, ∃ x, r = Build.ident x) →
      ∀ f ∈ (c.lower n).frames, f ∈ n.frames) ∧
    (n.outside Tag.isSuper = false → (c.receiver?.isSome = true → n.outside (· == .this) = false) →
      c.lower n = n) := by
  have hframes : ∀ f ∈ (c.lower n).frames, f ∈ n.frames ∨ f ∈ c.parent.frames ∨ ∃ r ∈ c.receiver?, f ∈ r.frames := by
    refine confined_frames_iff.mp (Class.confined_lower (passive_isFrame _) ?_ (fun r hr => ?_) n ?_)
    · exact confined_frames_iff.mpr fun f hf => .inr (.inl hf)
    · exact confined_frames_iff.mpr fun f hf => .inr (.inr ⟨r, hr, hf⟩)
    · exact confined_frames_iff.mpr fun f hf => .inl hf
  refine ⟨hframes, ?_, fun hsuper hthis => lower_eq_self_of_outside hsuper hthis⟩
  rintro ⟨x, hx⟩ hr f hf
  rcases hframes f hf with h | h | ⟨r, hmem, h⟩
  · exact h
  · rw [hx, Build.ident, Build.make, frames_mk rfl] at h
    cases h
  · obtain ⟨y, rfl⟩ := hr r hmem
    rw [Build.ident, Build.make, frames_mk rfl] at h
    cases h

theorem frames_untouched_nestedFunction :
    let f := Build.func [] [Build.returnStmt Build.this]
    let n := Build.call (.mk .none (.superMember .none) [Build.make (.keyName "m") []]) [Build.funcExpr f, Build.this]
    let c : SuperContext :=
      { parent := Build.ident "_super", isStatic := true, receiver? := some (Build.ident "A") }
    (c.lower n).frames = [f] ∧ f ∈ n.frames ∧ c.lower f = f := by
  intro f n c
  have hframes : (c.lower n).frames = [f] := rfl
  refine ⟨hframes, ?_, (frames_untouched c f).2.2 rfl fun _ => rfl⟩
  refine (frames_untouched c n).2.1 ⟨_, rfl⟩ (by simp [c]) f ?_
  rw [hframes]
  exact mem_singleton_self f

end SuperContext

end EcmaLower
