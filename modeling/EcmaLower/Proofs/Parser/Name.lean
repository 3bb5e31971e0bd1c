import EcmaLower.Parser.Name
import EcmaLower.Proofs.Parser.SourceTree

/-!
# Names and keys that are read
-/

namespace EcmaLower.Parse

open Node

/-! ## Names -/

instance : Quiet isName := by unfold isName; infer_instance

set_option synthInstance.maxSize 1000 in
instance (allowAwait : Bool) : Quiet (ident allowAwait) := by
  refine ⟨.next fun span => .next fun c => .next fun k => ?_⟩
  split
  · exact (inferInstance : Quiet _).ensures
  · dsimp only
    exact (inferInstance : Quiet _).ensures
  · exact ensures_failHere _

instance : Quiet identName := by
  refine ⟨.next fun span => .next fun k => ?_⟩
  split
  · exact .next fun _ => .pure trivial
  · exact .next fun _ => .pure trivial
  · exact ensures_failHere _

instance (forbidLet : Bool) : Quiet (bindingIdent forbidLet) := by
  refine ⟨.next fun isLet => .check fun _ => .next fun k => ?_⟩
  split
  · exact .next fun span => .next fun _ => .check fun _ => .pure trivial
  · exact .next fun i => .next fun c => .check fun _ => .pure trivial

instance (forbidLet : Bool) : Quiet (optBindingIdent forbidLet) := by
  unfold optBindingIdent; infer_instance

instance : Quiet labelIdent := by unfold labelIdent; infer_instance

/-! ## Keys -/

lemma ensures_privateKey : Ensures privateKey (ReadAs .privateKey) := by
  refine .next fun start => .next fun _ => .next fun pos => .next fun prev => ?_
  refine .ite (fun _ => .next fun _ => .next fun _ => ?_) fun _ => ?_
  all_goals
    refine .next fun i => .next fun span => .pure ?_
    exact ⟨read_leaf rfl, rfl⟩

section Grammar

variable {g : Grammar} [hg : g.Sound]

lemma ensures_propertyKey : Ensures (propertyKey g) (ReadIn Role.isPublicKey) := by
  refine .next fun start => ?_
  extract_lets leaf
  have hleaf : ∀ t : Tag, t.role = .key → t.reads [] = true → Ensures (leaf t) (ReadIn Role.isPublicKey) := by
    intro t hr hf
    refine .next fun _ => .next fun span => .pure ?_
    exact ⟨read_leaf hf, by rw [role_mk, hr]; rfl⟩
  refine .next fun k => ?_
  split
  · exact hleaf _ rfl rfl
  · exact hleaf _ rfl rfl
  · exact hleaf _ rfl rfl
  · exact hleaf _ rfl rfl
  · exact hleaf _ rfl rfl
  · refine .next fun _ => (hg.assign.allowIn).bind fun e => .next fun _ => .next fun span => ?_
    exact .pure fun he => ⟨read_of_roles (.cons he .nil) rfl, rfl⟩
  · exact ensures_unexpected _

lemma ensures_classKey : Ensures (classKey g) (ReadIn Role.isKey) := by
  refine .next fun isPrivate => .ite (fun _ => ?_) fun _ => ?_
  · refine ensures_privateKey.bind fun k => .check fun _ => .pure fun hk => ?_
    exact hk.within rfl
  · exact ensures_propertyKey.mono fun k hk => hk.mono fun r hr => by rw [Role.isKey, hr]; rfl

end Grammar

/-- The key of a constructor is no computed key. -/
lemma role_of_isConstructorKey {key : Node} (h : isConstructorKey key = true) : key.role = .key := by
  obtain ⟨s, t, ks⟩ := key
  cases t <;> first | rfl | cases h

end EcmaLower.Parse
