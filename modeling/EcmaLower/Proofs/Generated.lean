import EcmaLower.Proofs.WellFormed
import EcmaLower.Syntax.Build
import Mathlib.Tactic.Tauto

/-!
# Generated syntax

The passes put new code together from a small stock of tags, the *core* tags. This module says what
each builder needs to give a well-formed node, and that a builder adds nothing to a search for tags
outside the core: what such a search finds in the result was in the parts.
-/

namespace EcmaLower

open List

variable {op : BinaryOp} {t : Tag}

/-- The tags of generated code, and of the keys and members it is made from; functions, constructors
and `this` apart. -/
def Tag.isCore : Tag → Bool
  | ident _ | null | bool _ | num _ | bigInt _ | str _ | array | object | funcExpr _ | unary _
  | binary _ | assign _ | cond | member | call | paren | params | keyName _ | keyComputed | keyValue
  | binding _ | exprStmt | block | returnStmt | ifStmt | varDecl _ | declarator | funcDecl _
  | keyStr _ | keyNum _ | keyBigInt _ | members | method .. | field _ | emptyMember => true
  | _ => false

/-- A property that no node of generated code has, unless a function has it. -/
class Foreign (p : Node → Bool) : Prop where
  core : ∀ s t ks, t.isCore = true → p (.mk s t ks) = false
  this : p Build.this = false

/-- The tags of generated expressions and their parts that mention no name. -/
def Tag.isNameless : Tag → Bool
  | null | bool _ | num _ | str _ | array | object | funcExpr none | unary _ | binary _ | assign _
  | cond | member | call | paren | keyName _ | keyComputed | keyValue => true
  | _ => false

/-- A search that goes through all nodes of generated expressions, unless it stops at the name
`arguments`. -/
structure Search where
  Finds : Node → Prop
  core : ∀ s t ks, t.isNameless = true → (Finds (.mk s t ks) ↔ ∃ k ∈ ks, Finds k)
  ident : ∀ s x, x ≠ "arguments" → ¬Finds (.mk s (.ident x) [])

namespace Build

open Node

/-! ## Searches

A search for foreign tags passes through generated nodes to the parts they were built from. -/

section Searches

variable {p : Node → Bool} [Foreign p] {obj e f a b : Node} {ks : List Node} {name : String}

lemma any_core {s : Span} (ht : t.isCore = true) (ks : List Node) : (mk s t ks).any p = ks.any (·.any p) := by
  rw [any_mk, Foreign.core (p := p) _ _ _ ht, Bool.false_or]

lemma any_make (ht : t.isCore = true) (ks : List Node) : (make t ks).any p = ks.any (·.any p) := any_core ht ks

@[simp] lemma any_ident : (ident name).any p = false := any_make rfl []

@[simp] lemma any_this : this.any p = false := by
  rw [this, make, any_mk, ← make, ← this, Foreign.this (p := p)]
  rfl

@[simp] lemma any_unitsLit (u : Units) : (unitsLit u).any p = false := any_make rfl []

@[simp] lemma any_strLit : (strLit name).any p = false := any_unitsLit _

@[simp] lemma any_natLit (n : Nat) : (natLit n).any p = false := any_make rfl []

@[simp] lemma any_boolLit (v : Bool) : (boolLit v).any p = false := any_make rfl []

@[simp] lemma any_nullLit : nullLit.any p = false := any_make rfl []

@[simp] lemma any_undefined : undefined.any p = false := by
  rw [undefined, any_make rfl]
  simp

@[simp] lemma any_paren : (paren e).any p = e.any p := by
  rw [paren, any_make rfl]
  simp

@[simp] lemma any_binary : (binary op a b).any p = (a.any p || b.any p) := by
  rw [binary, any_make rfl]
  simp

@[simp] lemma any_cond : (cond e a b).any p = (e.any p || a.any p || b.any p) := by
  rw [cond, any_make rfl]
  simp [Bool.or_assoc]

@[simp] lemma any_access : (access a b).any p = (a.any p || b.any p) := by
  rw [access, any_make rfl]
  simp

@[simp] lemma any_computedKey : (computedKey e).any p = e.any p := by
  rw [computedKey, any_make rfl]
  simp

@[simp] lemma any_member : (member obj name).any p = obj.any p := by
  unfold member index
  split
  · rw [any_access, any_make rfl]
    simp
  · simp

@[simp] lemma any_path (names : List String) : (path names).any p = false := by
  have hfold : ∀ (ns : List String) (e : Node), (ns.foldl member e).any p = e.any p := by
    intro ns
    induction ns with
    | nil => intro e; rfl
    | cons n ns ih => intro e; rw [foldl_cons, ih, any_member]
  cases names with
  | nil => exact any_ident
  | cons root ns => rw [path, hfold, any_ident]

@[simp] lemma any_call : (call f ks).any p = (f.any p || ks.any (·.any p)) := any_make rfl _

@[simp] lemma any_assign : (assign a b).any p = (a.any p || b.any p) := by
  rw [assign, any_make rfl]
  simp

@[simp] lemma any_keyValue : (keyValue a b).any p = (a.any p || b.any p) := by
  rw [keyValue, any_core rfl]
  simp

@[simp] lemma any_object (props : List (String × Node)) : (object props).any p = props.any (·.2.any p) := by
  rw [object, any_make rfl, any_map]
  congr 1
  funext kv
  simp [any_make (t := .keyName kv.1) rfl]

@[simp] lemma any_array : (array ks).any p = ks.any (·.any p) := any_make rfl _

@[simp] lemma any_block : (block ks).any p = ks.any (·.any p) := any_make rfl _

@[simp] lemma any_params : (params ks).any p = ks.any (·.any p) := any_make rfl _

@[simp] lemma any_func (ps : List Node) :
    (func ps ks).any p = (p (func ps ks) || (ps.any (·.any p) || ks.any (·.any p))) := by
  rw [func, make, any_mk]
  simp

@[simp] lemma any_funcExpr : (funcExpr f).any p = f.any p := by
  rw [funcExpr, any_core rfl]
  simp

@[simp] lemma any_funcDecl : (funcDecl name f).any p = f.any p := by
  rw [funcDecl, any_make rfl]
  simp

@[simp] lemma any_exprStmt : (exprStmt e).any p = e.any p := by
  rw [exprStmt, any_make rfl]
  simp

@[simp] lemma any_returnStmt : (returnStmt e).any p = e.any p := by
  rw [returnStmt, any_make rfl]
  simp

@[simp] lemma any_binding : (binding name).any p = false := any_make rfl []

@[simp] lemma any_declarator (v : Option Node) :
    (declarator a v).any p = (a.any p || v.toList.any (·.any p)) := any_make rfl _

@[simp] lemma any_var : (var ks).any p = ks.any (·.any p) := any_make rfl _

@[simp] lemma any_ifStmt (no : Option Node) : (ifStmt e a no).any p =
    (e.any p || (a.any p || no.toList.any (·.any p))) := any_make rfl _

@[simp] lemma any_useStrict : useStrict.any p = false := by
  rw [useStrict, any_exprStmt, any_strLit]

end Searches

/-! ## Searches that follow a walk

The same for any search that goes through generated nodes, with the exception that it may stop at the
name `arguments`. -/

section Search

variable (F : Search) {obj e f a b : Node} {ks : List Node} {name : String}

lemma finds_make (ht : t.isNameless = true) : F.Finds (make t ks) ↔ ∃ k ∈ ks, F.Finds k := F.core _ _ _ ht

lemma finds_ident (h : name ≠ "arguments") : ¬F.Finds (ident name) := F.ident _ _ h

lemma finds_unitsLit (u : Units) : ¬F.Finds (unitsLit u) := by
  simp [unitsLit, finds_make F (t := .str ⟨u, none⟩) rfl]

lemma finds_undefined : ¬F.Finds undefined := by
  simp [undefined, natLit, finds_make F (t := .unary .void) rfl, finds_make F (t := .num (.nat 0)) rfl]

lemma finds_paren : F.Finds (paren e) ↔ F.Finds e := by
  simp [paren, finds_make F (t := .paren) rfl]

lemma finds_access : F.Finds (access a b) ↔ F.Finds a ∨ F.Finds b := by
  simp [access, finds_make F (t := .member) rfl]

lemma finds_member : F.Finds (member obj name) ↔ F.Finds obj := by
  unfold member index computedKey
  split <;> simp [finds_access, strLit, finds_unitsLit, finds_make F (t := .keyName name) rfl,
    finds_make F (t := .keyComputed) rfl]

lemma finds_path {root : String} {names : List String} (h : root ≠ "arguments") :
    ¬F.Finds (path (root :: names)) := by
  have hfold : ∀ (ns : List String) (e : Node), ¬F.Finds e → ¬F.Finds (ns.foldl member e) := by
    intro ns
    induction ns with
    | nil => intro e he; exact he
    | cons n ns ih => intro e he; exact ih _ (by rwa [finds_member])
  exact hfold names _ (finds_ident F h)

lemma finds_call : F.Finds (call f ks) ↔ F.Finds f ∨ ∃ k ∈ ks, F.Finds k := by
  simp [call, finds_make F (t := .call) rfl]

lemma finds_array : F.Finds (array ks) ↔ ∃ k ∈ ks, F.Finds k := finds_make F rfl

lemma finds_keyValue : F.Finds (keyValue a b) ↔ F.Finds a ∨ F.Finds b := by
  rw [keyValue, F.core _ _ _ rfl]
  simp

lemma finds_object (props : List (String × Node)) : F.Finds (object props) ↔ ∃ kv ∈ props, F.Finds kv.2 := by
  rw [object, finds_make F rfl]
  simp [finds_keyValue, finds_make F (t := .keyName _) rfl]

lemma finds_funcExpr : F.Finds (funcExpr f) ↔ F.Finds f := by
  rw [funcExpr, F.core _ _ _ rfl]
  simp

end Search

end Build

/-- The search for nodes with a foreign property. -/
def Search.ofForeign (p : Node → Bool) [Foreign p] : Search where
  Finds n := n.any p = true
  core s t ks ht := by
    have hcore : t.isCore = true := by
      cases t <;> first | rfl | cases ht
    rw [Build.any_core hcore, any_eq_true]
  ident s x _ := by rw [Build.any_core rfl]; simp

namespace Build

open Node

/-! ## Well-formedness

A generated node is well-formed if its parts are and have the roles that it takes. -/

section WellFormed

variable {obj e f a b : Node} {ks : List Node} {name : String}

@[simp] lemma ofRole_isArgument (h : e.Is .expr) : e.OfRole Role.isArgument := h.ofRole rfl

@[simp] lemma ofRole_isTarget (h : e.Is .expr) : e.OfRole Role.isTarget := h.ofRole rfl

@[simp] lemma ofRole_isStatement (h : e.Is .stmt) : e.OfRole Role.isStatement := h.ofRole rfl

@[simp] lemma ofRole_isStatement_block (h : e.Is .block) : e.OfRole Role.isStatement := h.ofRole rfl

@[simp] lemma is_ident : (ident name).Is .expr := ⟨rfl, rfl⟩

@[simp] lemma is_this : this.Is .expr := ⟨rfl, rfl⟩

@[simp] lemma is_unitsLit (u : Units) : (unitsLit u).Is .expr := ⟨rfl, rfl⟩

@[simp] lemma is_strLit : (strLit name).Is .expr := ⟨rfl, rfl⟩

@[simp] lemma is_natLit (n : Nat) : (natLit n).Is .expr := ⟨rfl, rfl⟩

@[simp] lemma is_boolLit (v : Bool) : (boolLit v).Is .expr := ⟨rfl, rfl⟩

@[simp] lemma is_nullLit : nullLit.Is .expr := ⟨rfl, rfl⟩

@[simp] lemma is_undefined : undefined.Is .expr := ⟨rfl, rfl⟩

@[simp] lemma is_paren : (paren e).Is .expr ↔ e.Is .expr := by
  refine (is_mk rfl).trans ?_
  simp [Tag.fits, Is, and_comm]

@[simp] lemma is_binary : (binary op a b).Is .expr ↔ a.Is .expr ∧ b.Is .expr := by
  refine (is_mk rfl).trans ?_
  simp [Tag.fits, Is]
  tauto

@[simp] lemma is_cond : (cond e a b).Is .expr ↔ e.Is .expr ∧ a.Is .expr ∧ b.Is .expr := by
  refine (is_mk rfl).trans ?_
  simp [Tag.fits, Is]
  tauto

@[simp] lemma is_access : (access a b).Is .expr ↔ a.Is .expr ∧ b.OfRole Role.isKey := by
  refine (is_mk rfl).trans ?_
  simp [Tag.fits, Is, OfRole]
  tauto

@[simp] lemma is_computedKey : (computedKey e).Is .computedKey ↔ e.Is .expr := by
  refine (is_mk rfl).trans ?_
  simp [Tag.fits, Is, and_comm]

@[simp] lemma is_member : (member obj name).Is .expr ↔ obj.Is .expr := by
  unfold member index
  split
  · rw [is_access]
    exact and_iff_left ⟨rfl, rfl⟩
  · rw [is_access]
    exact and_iff_left ((is_computedKey.mpr is_strLit).ofRole rfl)

@[simp] lemma is_path (names : List String) : (path names).Is .expr := by
  have hfold : ∀ (ns : List String) (e : Node), e.Is .expr → (ns.foldl member e).Is .expr := by
    intro ns
    induction ns with
    | nil => intro e he; exact he
    | cons n ns ih => intro e he; exact ih _ (is_member.mpr he)
  cases names with
  | nil => exact is_ident
  | cons root ns => exact hfold ns _ is_ident

@[simp] lemma is_call : (call f ks).Is .expr ↔ f.Is .expr ∧ ∀ k ∈ ks, k.OfRole Role.isArgument := by
  refine (is_mk rfl).trans ?_
  rw [forall_ofRole]
  simp only [Tag.fits, map_cons, Bool.and_eq_true, beq_iff_eq, mem_cons, forall_eq_or_imp, Is]
  tauto

@[simp] lemma is_assign : (assign a b).Is .expr ↔ a.OfRole Role.isTarget ∧ b.Is .expr := by
  refine (is_mk rfl).trans ?_
  simp [Tag.fits, Is, OfRole]
  tauto

@[simp] lemma is_keyValue : (keyValue a b).Is .prop ↔ a.OfRole Role.isPublicKey ∧ b.Is .expr := by
  refine (is_mk rfl).trans ?_
  simp [Tag.fits, Is, OfRole]
  tauto

@[simp] lemma is_object (props : List (String × Node)) : (object props).Is .expr ↔ ∀ kv ∈ props, kv.2.Is .expr := by
  refine (is_mk rfl).trans ?_
  simp only [Tag.fits, map_map, all_map, all_eq_true, forall_mem_map]
  constructor
  · rintro ⟨-, h⟩ kv hkv
    exact (is_keyValue.mp ⟨h kv hkv, rfl⟩).2
  · intro h
    have hkey : ∀ k : String, (make (.keyName k) []).OfRole Role.isPublicKey := fun _ => ⟨rfl, rfl⟩
    exact ⟨fun _ _ => rfl, fun kv hkv => (is_keyValue.mpr ⟨hkey kv.1, h kv hkv⟩).1⟩

@[simp] lemma is_array : (array ks).Is .expr ↔ ∀ k ∈ ks, k.OfRole fun r => r.isArgument || r == .hole := by
  exact (is_mk rfl).trans forall_ofRole.symm

@[simp] lemma is_block : (block ks).Is .block ↔ ∀ k ∈ ks, k.OfRole Role.isStatement := by
  exact (is_mk rfl).trans forall_ofRole.symm

@[simp] lemma is_funcExpr : (funcExpr f).Is .expr ↔ f.Is .func := by
  refine (is_mk rfl).trans ?_
  simp [Tag.fits, Is, and_comm]

@[simp] lemma is_funcDecl : (funcDecl name f).Is .stmt ↔ f.Is .func := by
  refine (is_mk rfl).trans ?_
  simp [Tag.fits, Is, and_comm]

@[simp] lemma is_exprStmt : (exprStmt e).Is .stmt ↔ e.Is .expr := by
  refine (is_mk rfl).trans ?_
  simp [Tag.fits, Is, and_comm]

@[simp] lemma is_returnStmt : (returnStmt e).Is .stmt ↔ e.Is .expr := by
  refine (is_mk rfl).trans ?_
  simp [Tag.fits, Is, and_comm]

@[simp] lemma is_binding : (binding name).Is .pat := ⟨rfl, rfl⟩

@[simp] lemma is_declarator : (declarator a (some b)).Is .declarator ↔ a.OfRole Role.isTarget ∧ b.Is .expr := by
  refine (is_mk rfl).trans ?_
  simp [Tag.fits, Is, OfRole]
  tauto

@[simp] lemma is_var : (var ks).Is .stmt ↔ ∀ k ∈ ks, k.Is .declarator := by
  refine (is_mk rfl).trans ?_
  simp only [Tag.fits, all_map, all_eq_true, Function.comp_apply, beq_iff_eq, Is]
  exact ⟨fun h k hk => ⟨h.2 k hk, h.1 k hk⟩, fun h => ⟨fun k hk => (h k hk).2, fun k hk => (h k hk).1⟩⟩

@[simp] lemma is_ifStmt : (ifStmt e a none).Is .stmt ↔ e.Is .expr ∧ a.OfRole Role.isStatement := by
  refine (is_mk rfl).trans ?_
  simp [Tag.fits, Is, OfRole]
  tauto

@[simp] lemma is_ifStmt_else : (ifStmt e a (some b)).Is .stmt ↔
    e.Is .expr ∧ a.OfRole Role.isStatement ∧ b.OfRole Role.isStatement := by
  refine (is_mk rfl).trans ?_
  simp [Tag.fits, Is, OfRole]
  tauto

@[simp] lemma is_useStrict : useStrict.Is .stmt := ⟨rfl, rfl⟩

end WellFormed

end Build

end EcmaLower
