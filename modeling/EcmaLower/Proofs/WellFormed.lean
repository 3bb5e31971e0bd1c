import EcmaLower.Proofs.Tree
import EcmaLower.Syntax.ModuleItem
import Mathlib.Data.List.Forall2

/-!
# Well-formed trees

A tag alone does not say which children its node has. This module states the grammar of trees: each
tag has a *role*, and each tag takes only lists of children whose roles fit it. A tree is well-formed
if every node in it takes its children. Three conditions go beyond roles: a rest parameter is the last
one of its list, a template has one more text than it has substitutions, and a class has at most one
constructor.

Since only the roles of the children count, a rewrite that keeps the role of every child keeps a
node well-formed.
-/

namespace EcmaLower

open List

variable {t : Tag} {ks : List Node} {r r' : Role} {s : Span} {rs : List Role} {a isStatic : Bool} {k n : Node}
  {p : Role → Bool}

/-! ## Roles -/

/-- What a node is to the node around it. -/
inductive Role
  | expr | spread | hole | func | params | cls | members | ctor | method | field | staticBlock
  | emptyMember | key | computedKey | privateKey | prop | pat | rest | patProp | stmt | block
  | clause | handler | declarator | absent
deriving DecidableEq, Repr

/-- The role of a tag. -/
def Tag.role : Tag → Role
  | spread => .spread
  | hole => .hole
  | func .. => .func
  | params => .params
  | cls => .cls
  | members => .members
  | ctor => .ctor
  | method .. => .method
  | field _ => .field
  | staticBlock => .staticBlock
  | emptyMember => .emptyMember
  | keyName _ | keyStr _ | keyNum _ | keyBigInt _ => .key
  | keyComputed => .computedKey
  | keyPrivate _ => .privateKey
  | shorthand _ | keyValue | initShorthand _ | objMethod | getter | setter => .prop
  | binding _ | arrayPat | objectPat | assignPat => .pat
  | restPat => .rest
  | patKeyValue | patName _ => .patProp
  | block => .block
  | caseClause | defaultClause => .clause
  | catchClause => .handler
  | declarator => .declarator
  | absent => .absent
  | exprStmt | empty | debugger | withStmt | returnStmt | labeled _ | breakStmt _ | continueStmt _
  | ifStmt | switchStmt | throwStmt | tryStmt | whileStmt | doWhile | forStmt | forIn | forOf _
  | varDecl _ | funcDecl _ | classDecl _ => .stmt
  | _ => .expr

/-- The role of a node. -/
def Node.role (n : Node) : Role := n.tag.role

@[simp] lemma Node.role_mk (s : Span) (t : Tag) (ks : List Node) : (Node.mk s t ks).role = t.role := rfl

namespace Role

/-- What a value can be stored in: a pattern, or an expression such as a property. -/
def isTarget (r : Role) : Bool := r == expr || r == pat

/-- An argument of a call. -/
def isArgument (r : Role) : Bool := r == expr || r == spread

/-- A statement, which may be a block. -/
def isStatement (r : Role) : Bool := r == stmt || r == block

/-- The key of a property. -/
def isPublicKey (r : Role) : Bool := r == key || r == computedKey

/-- The key of a class member, or of a property of an object of that class. -/
def isKey (r : Role) : Bool := r.isPublicKey || r == privateKey

/-- An expression or nothing. -/
def isOptional (r : Role) : Bool := r == expr || r == absent

/-- Parameters: patterns, of which the last may be a rest parameter. -/
def areParams (rs : List Role) : Bool := rs.all (fun r => r.isTarget || r == rest) && rs.dropLast.all (· != rest)

/-- A member of a class. -/
def isMember (r : Role) : Bool := r == ctor || r == method || r == field || r == staticBlock || r == emptyMember

/-- Members of a class, at most one of them a constructor. -/
def areMembers (rs : List Role) : Bool := rs.all isMember && rs.count ctor ≤ 1

end Role

/-! ## The grammar -/

/-- The children that a tag takes, by their roles. -/
def Tag.fits (t : Tag) (rs : List Role) : Bool :=
  match t with
  | this | ident _ | null | bool _ | num _ | bigInt _ | str _ | regex .. | privateName _ | newTarget
  | importMeta | invalid | hole | emptyMember | keyName _ | keyStr _ | keyNum _ | keyBigInt _
  | keyPrivate _ | shorthand _ | binding _ | empty | debugger | breakStmt _ | continueStmt _
  | absent => rs == []
  | array => rs.all fun r => r.isArgument || r == .hole
  | object => rs.all fun r => r == .prop || r == .spread
  | funcExpr _ | funcDecl _ => rs == [.func]
  | arrow _ => rs == [.params, .expr] || rs == [.params, .block]
  | classExpr _ | classDecl _ => rs == [.cls]
  | unary _ | update .. | await | paren | spread | keyComputed | initShorthand _ | exprStmt
  | throwStmt => rs == [.expr]
  | binary _ => rs == [.expr, .expr]
  | cond => rs == [.expr, .expr, .expr]
  | seq => rs.all (· == .expr)
  | assign _ | assignPat => match rs with
    | [target, value] => target.isTarget && value == .expr
    | _ => false
  | member | optMember _ => match rs with
    | [obj, k] => obj == .expr && k.isKey
    | _ => false
  | superMember _ => match rs with
    | [k] => k.isPublicKey
    | _ => false
  | call | new _ | optCall _ => match rs with
    | callee :: args => callee == .expr && args.all Role.isArgument
    | [] => false
  | superCall _ | importCall .. => rs.all Role.isArgument
  | template quasis => rs.all (· == .expr) && quasis.length == rs.length + 1
  | tagged _ quasis => rs.all (· == .expr) && quasis.length == rs.length && rs != []
  | yield _ | returnStmt => rs == [] || rs == [.expr]
  | func .. => rs == [.params, .block]
  | params => Role.areParams rs
  | cls => rs == [.members] || rs == [.members, .expr]
  | members => Role.areMembers rs
  | ctor => rs == [.key, .params, .block]
  | method .. => match rs with
    | [k, f] => k.isKey && f == .func
    | _ => false
  | field _ => match rs with
    | [k] => k.isKey
    | [k, value] => k.isKey && value == .expr
    | _ => false
  | staticBlock => rs == [.block]
  | keyValue => match rs with
    | [k, value] => k.isPublicKey && value == .expr
    | _ => false
  | objMethod => match rs with
    | [k, f] => k.isPublicKey && f == .func
    | _ => false
  | getter => match rs with
    | [k, body] => k.isPublicKey && body == .block
    | _ => false
  | setter => match rs with
    | [k, param, body] => k.isPublicKey && param.isTarget && body == .block
    | _ => false
  | arrayPat => rs.all fun r => r.isTarget || r == .hole || r == .rest
  | objectPat => rs.all fun r => r == .patProp || r == .rest
  | restPat => match rs with
    | [target] => target.isTarget
    | _ => false
  | patKeyValue => match rs with
    | [k, target] => k.isPublicKey && target.isTarget
    | _ => false
  | patName _ => rs == [] || rs == [.expr]
  | block | defaultClause => rs.all Role.isStatement
  | withStmt | whileStmt | doWhile => match rs with
    | [e, body] => e == .expr && body.isStatement
    | _ => false
  | labeled _ => match rs with
    | [body] => body.isStatement
    | _ => false
  | ifStmt => match rs with
    | [test, yes] => test == .expr && yes.isStatement
    | [test, yes, no] => test == .expr && yes.isStatement && no.isStatement
    | _ => false
  | switchStmt => match rs with
    | value :: clauses => value == .expr && clauses.all (· == .clause)
    | [] => false
  | caseClause => match rs with
    | test :: body => test == .expr && body.all Role.isStatement
    | [] => false
  | tryStmt => match rs with
    | [body, catcher, final] => body == .block && (catcher == .handler || catcher == .absent) &&
        (final == .block || final == .absent)
    | _ => false
  | catchClause => match rs with
    | [param, body] => (param.isTarget || param == .absent) && body == .block
    | _ => false
  | forStmt => match rs with
    | [init, test, step, body] => (init.isOptional || init == .stmt) && test.isOptional &&
        step.isOptional && body.isStatement
    | _ => false
  | forIn | forOf _ => match rs with
    | [head, e, body] => (head.isTarget || head == .stmt) && e == .expr && body.isStatement
    | _ => false
  | varDecl _ => rs.all (· == .declarator)
  | declarator => match rs with
    | [target] => target.isTarget
    | [target, value] => target.isTarget && value == .expr
    | _ => false

/-- Whether every node of a tree takes its children. -/
def Node.isWellFormed (n : Node) : Bool := n.fold fun _ t ks => t.fits (ks.map (·.1.role)) && ks.all (·.2)

/-- Every node of a tree takes its children. -/
def Node.WellFormed (n : Node) : Prop := n.isWellFormed = true

instance (n : Node) : Decidable n.WellFormed := inferInstanceAs (Decidable (_ = _))

/-- Every statement of a script is a well-formed statement. -/
def Script.WellFormed (s : Script) : Prop := ∀ n ∈ s.body, n.WellFormed ∧ n.role.isStatement = true

instance (s : Script) : Decidable s.WellFormed := inferInstanceAs (Decidable (∀ n ∈ s.body, _))

namespace Node

/-- A tree is well-formed if its root takes its children and these are well-formed. -/
theorem wellFormed_mk : (mk s t ks).WellFormed ↔ t.fits (ks.map role) = true ∧ ∀ k ∈ ks, k.WellFormed := by
  simp only [WellFormed, isWellFormed, fold_mk, map_map, Function.comp_def, Bool.and_eq_true, all_map, all_eq_true]

lemma WellFormed.fits (h : (mk s t ks).WellFormed) : t.fits (ks.map role) = true := (wellFormed_mk.mp h).1

lemma WellFormed.kid {s : Span} {t : Tag} {ks : List Node} (h : (mk s t ks).WellFormed) (hk : k ∈ ks) :
    k.WellFormed := (wellFormed_mk.mp h).2 k hk

lemma WellFormed.within {m : Node} (h : n.WellFormed) (hm : m.Within n) : m.WellFormed := by
  induction hm with
  | refl => exact h
  | kid hk _ ih => exact ih (h.kid hk)

/-- Children with the same roles are as good as others. -/
lemma WellFormed.of_roles {s' : Span} {ks' : List Node} (h : (mk s t ks).WellFormed)
    (hr : ks'.map role = ks.map role) (hw : ∀ k ∈ ks', k.WellFormed) : (mk s' t ks').WellFormed :=
  wellFormed_mk.mpr ⟨hr ▸ h.fits, hw⟩

/-- A well-formed node of a role. -/
def Is (r : Role) (n : Node) : Prop := n.WellFormed ∧ n.role = r

/-- A well-formed node whose role is among those of `p`. -/
def OfRole (p : Role → Bool) (n : Node) : Prop := n.WellFormed ∧ p n.role = true

/-- A node whose children keep their roles stays well-formed. -/
lemma WellFormed.map_kids {f : Node → Node} (h : (mk s t ks).WellFormed) (hf : ∀ k ∈ ks, (f k).Is k.role) :
    (mk s t (ks.map f)).WellFormed := by
  refine h.of_roles ?_ (forall_mem_map.mpr fun k hk => (hf k hk).1)
  rw [map_map]
  exact map_congr_left fun k hk => (hf k hk).2

lemma Is.ofRole (h : n.Is r) (hp : p r = true) : n.OfRole p := ⟨h.1, h.2 ▸ hp⟩

lemma ofRole_beq : n.OfRole (· == r) ↔ n.Is r := by
  simp [OfRole, Is]

lemma forall_ofRole : (∀ k ∈ ks, k.OfRole p) ↔ (ks.map role).all p = true ∧ ∀ k ∈ ks, k.WellFormed := by
  simp only [OfRole, all_map, all_eq_true, Function.comp_apply]
  exact ⟨fun h => ⟨fun k hk => (h k hk).2, fun k hk => (h k hk).1⟩, fun h k hk => ⟨h.2 k hk, h.1 k hk⟩⟩

/-- A node is well-formed if its children have roles that it takes, and are well-formed. -/
lemma is_mk (hr : t.role = r) : (mk s t ks).Is r ↔ t.fits (ks.map role) = true ∧ ∀ k ∈ ks, k.WellFormed :=
  ⟨fun h => wellFormed_mk.mp h.1, fun h => ⟨wellFormed_mk.mpr h, hr⟩⟩

lemma roles_of_forall₂ (h : Forall₂ (fun k r => k.Is r) ks rs) : ks.map role = rs ∧ ∀ k ∈ ks, k.WellFormed := by
  induction h with
  | nil => simp
  | cons h _ ih => simpa [h.1, h.2, ih.1] using ih.2

/-- A node of fixed children, by the roles of these. -/
lemma is_of_roles (hk : Forall₂ (fun k r => k.Is r) ks rs) (hr : t.role = r) (hf : t.fits rs = true) :
    (mk s t ks).Is r := by
  obtain ⟨hroles, hkids⟩ := roles_of_forall₂ hk
  exact (is_mk hr).mpr ⟨hroles ▸ hf, hkids⟩

end Node

/-- Whether a tag is that of a declaration. -/
def Tag.isDeclaration : Tag → Bool
  | varDecl _ | funcDecl _ | classDecl _ => true
  | _ => false

/-- Whether a part of a list of exports names a single export. -/
def ExportSpecifier.isNamed : ExportSpecifier → Bool
  | named .. => true
  | all _ => false

/-- The trees of an item are what the grammar asks for, and only another module is exported as one
object. -/
def ModuleItem.WellFormed : ModuleItem → Prop
  | stmt s => s.OfRole Role.isStatement
  | exportDecl decl => decl.WellFormed ∧ decl.tag.isDeclaration = true
  | exportDefaultFunc _ f => f.Is .func
  | exportDefaultClass _ c => c.Is .cls
  | exportDefaultExpr e => e.Is .expr
  | exportNamed specs none => ∀ spec ∈ specs, spec.isNamed = true
  | importDecl .. | exportNamed _ (some _) | exportAll _ => True

/-! ## Roles that few tags take -/

/-- Whether a node of a role may stand below a tag, as far as the parts of classes go: they stand in
classes only. -/
def Role.takenBy : Role → Tag → Bool
  | cls, .classDecl _ | cls, .classExpr _ | members, .cls => true
  | ctor, .members | method, .members | field, .members | staticBlock, .members
  | emptyMember, .members => true
  | cls, _ | members, _ | ctor, _ | method, _ | field, _ | staticBlock, _ | emptyMember, _ => false
  | _, _ => true

/-- The parts of a class are nothing that other syntax takes. -/
lemma Role.not_ordinary (h : r.takenBy t = false) :
    (r.isTarget || r.isArgument || r.isStatement || r.isKey || r.isPublicKey || r.isOptional ||
      [expr, func, params, block, spread, hole, key, prop, rest, patProp, stmt, clause, handler,
        declarator, absent].contains r) = false := by
  cases r <;> first | rfl | cases h

-- The equations of the grammar are stated here once, for this and all the proofs that follow.
attribute [local simp] Tag.fits in
/-- **The parts of a class stand in classes only.** -/
lemma Tag.takenBy_of_fits (h : t.fits rs = true) (hr : r ∈ rs) : r.takenBy t = true := by
  by_contra hne
  have hfixed {l : List Role} (hl : rs = l) (hall : l.all (·.takenBy t) = true) : False :=
    hne (all_eq_true.mp hall r (hl ▸ hr))
  have hnot := Role.not_ordinary (eq_false_of_ne_true hne)
  simp only [Bool.or_eq_false_iff, contains_eq_mem, decide_eq_false_iff_not, mem_cons,
    not_mem_nil, or_false, not_or] at hnot
  cases t <;> simp only [Tag.fits] at h
  -- Most tags take a fixed list of roles, or one of two.
  all_goals try exact hfixed (beq_iff_eq.mp h) rfl
  case arrow | yield | cls | patName | returnStmt =>
    simp only [Bool.or_eq_true, beq_iff_eq] at h
    rcases h with h | h <;> exact hfixed h rfl
  case params | members =>
    simp only [Role.areParams, Role.areMembers, Bool.and_eq_true, all_eq_true] at h
    have hrole := h.1 r hr
    cases r <;> first | exact hne rfl | cases hrole
  -- Every other tag takes a list of one kind, or a few children in turn.
  all_goals clear hfixed
  all_goals first
    | (have hrole := all_eq_true.mp h r hr; cases r <;> first | exact hne rfl | cases hrole)
    | (split at h <;> grind)
    | (simp only [Bool.and_eq_true, beq_iff_eq, all_eq_true] at h; grind)

lemma Node.WellFormed.takenBy (h : (mk s t ks).WellFormed) (hk : k ∈ ks) : k.role.takenBy t = true :=
  Tag.takenBy_of_fits h.fits (mem_map_of_mem hk)

/-- The roles of the parts of a class. -/
def Role.isClassPart (r : Role) : Bool := r.isMember || r == members

/-- The parts of a class stand in the class, or in the list of its members. -/
lemma Role.eq_of_takenBy (hr : r.isClassPart = true) (h : r.takenBy t = true) : t = .cls ∨ t = .members := by
  unfold Role.takenBy at h
  split at h
  case h_1 | h_2 => cases hr
  case h_3 => exact .inl rfl
  case h_4 | h_5 | h_6 | h_7 | h_8 => exact .inr rfl
  case h_16 => cases r <;> simp_all <;> cases hr
  all_goals cases h

/-- Outside of classes there are no parts of classes. -/
lemma Node.WellFormed.not_isClassPart (h : (mk s t ks).WellFormed) (ht : t ≠ .cls) (hr : t.role.isClassPart = false)
    (hk : k ∈ ks) : k.role.isClassPart = false := by
  by_contra hpart
  rcases Role.eq_of_takenBy (eq_true_of_ne_false hpart) (h.takenBy hk) with rfl | rfl
  · exact ht rfl
  · exact absurd hr (by decide)

/-! ## Roles that only one tag has -/

/-- The tag of a role, if no other tag has it. -/
def Role.onlyTag : Role → Option Tag
  | spread => some .spread
  | hole => some .hole
  | params => some .params
  | cls => some .cls
  | members => some .members
  | ctor => some .ctor
  | staticBlock => some .staticBlock
  | emptyMember => some .emptyMember
  | computedKey => some .keyComputed
  | rest => some .restPat
  | block => some .block
  | handler => some .catchClause
  | declarator => some .declarator
  | absent => some .absent
  | _ => none

lemma Tag.eq_of_role {u : Tag} (h : t.role.onlyTag = some u) : t = u := by
  cases t <;> cases h <;> rfl

/-- A node whose role has only one tag has that tag. -/
lemma Node.eq_of_role (h : n.role = r) (hr : r.onlyTag = some t) : ∃ s ks, n = .mk s t ks := by
  obtain ⟨s, u, ks⟩ := n
  subst h
  obtain rfl : u = t := Tag.eq_of_role hr
  exact ⟨s, ks, rfl⟩

lemma Node.eq_func (h : n.role = .func) : ∃ s a g ks, n = .mk s (.func a g) ks := by
  obtain ⟨s, t, ks⟩ := n
  cases t <;> first | exact ⟨_, _, _, _, rfl⟩ | cases h

/-! ## Shapes -/

/-- Lists of nodes are as long as their lists of roles. -/
lemma map_role_eq_pair (h : ks.map Node.role = [r, r']) : ∃ a b, ks = [a, b] ∧ a.role = r ∧ b.role = r' := by
  obtain ⟨a, l, rfl, ha, hl⟩ := map_eq_cons_iff.mp h
  obtain ⟨b, l', rfl, hb, hl'⟩ := map_eq_cons_iff.mp hl
  rw [map_eq_nil_iff] at hl'
  subst hl'
  exact ⟨a, b, rfl, ha, hb⟩

namespace Node.WellFormed

variable {s : Span} {ks : List Node}

/-- A leaf has no children. -/
lemma leaf (ht : t.fits (ks.map role) = (ks.map role == [])) (h : (mk s t ks).WellFormed) : ks = [] := by
  have := h.fits
  rw [ht] at this
  simpa using this

lemma single (ht : t.fits (ks.map role) = (ks.map role == [r])) (h : (mk s t ks).WellFormed) :
    ∃ a, ks = [a] ∧ a.Is r := by
  have hroles := h.fits
  rw [ht, beq_iff_eq] at hroles
  obtain ⟨a, l, rfl, ha, hl⟩ := map_eq_cons_iff.mp hroles
  rw [map_eq_nil_iff] at hl
  subst hl
  exact ⟨a, rfl, h.kid (by simp), ha⟩

lemma pair (ht : t.fits (ks.map role) = (ks.map role == [r, r'])) (h : (mk s t ks).WellFormed) :
    ∃ a b, ks = [a, b] ∧ a.Is r ∧ b.Is r' := by
  have hroles := h.fits
  rw [ht, beq_iff_eq] at hroles
  obtain ⟨a, b, rfl, ha, hb⟩ := map_role_eq_pair hroles
  exact ⟨a, b, rfl, ⟨h.kid (by simp), ha⟩, ⟨h.kid (by simp), hb⟩⟩

lemma triple {r'' : Role} (ht : t.fits (ks.map role) = (ks.map role == [r, r', r''])) (h : (mk s t ks).WellFormed) :
    ∃ a b c, ks = [a, b, c] ∧ a.Is r ∧ b.Is r' ∧ c.Is r'' := by
  have hroles := h.fits
  rw [ht, beq_iff_eq] at hroles
  obtain ⟨a, l, rfl, ha, hl⟩ := map_eq_cons_iff.mp hroles
  obtain ⟨b, c, rfl, hb, hc⟩ := map_role_eq_pair hl
  exact ⟨a, b, c, rfl, ⟨h.kid (by simp), ha⟩, ⟨h.kid (by simp), hb⟩, ⟨h.kid (by simp), hc⟩⟩

/-- A function has parameters and a block. -/
lemma func {g : Bool} (h : (mk s (.func a g) ks).WellFormed) :
    ∃ p b, ks = [p, b] ∧ p.Is .params ∧ b.Is .block := pair rfl h

/-- A constructor has a key, parameters and a block. -/
lemma ctor (h : (mk s .ctor ks).WellFormed) :
    ∃ k p b, ks = [k, p, b] ∧ k.Is .key ∧ p.Is .params ∧ b.Is .block := triple rfl h

/-- A node of two children whose roles it asks for one by one. -/
lemma two {q : Role → Bool} (ht : ∀ rs, t.fits rs = match rs with | [r, r'] => p r && q r' | _ => false)
    (h : (mk s t ks).WellFormed) : ∃ a b, ks = [a, b] ∧ a.OfRole p ∧ b.OfRole q := by
  have hroles := h.fits
  rw [ht] at hroles
  match ks, h with
  | [a, b], h =>
    rw [map_cons, map_singleton, Bool.and_eq_true] at hroles
    exact ⟨a, b, rfl, ⟨h.kid (by simp), hroles.1⟩, ⟨h.kid (by simp), hroles.2⟩⟩
  | [], _ | [_], _ | _ :: _ :: _ :: _, _ => cases hroles

/-- A getter has a key and a block. -/
lemma getter (h : (mk s .getter ks).WellFormed) : ∃ k b, ks = [k, b] ∧ k.OfRole Role.isPublicKey ∧ b.Is .block := by
  simpa [ofRole_beq] using two (q := (· == .block)) (fun _ => rfl) h

/-- A setter has a key, a parameter and a block. -/
lemma setter (h : (mk s .setter ks).WellFormed) : ∃ k p b, ks = [k, p, b] ∧
    k.OfRole Role.isPublicKey ∧ p.OfRole Role.isTarget ∧ b.Is .block := by
  match ks, h with
  | [k, p, b], h =>
    have hroles := h.fits
    simp only [Tag.fits, map_cons, map_nil, Bool.and_eq_true, beq_iff_eq] at hroles
    exact ⟨k, p, b, rfl, ⟨h.kid (by simp), hroles.1.1⟩, ⟨h.kid (by simp), hroles.1.2⟩,
      ⟨h.kid (by simp), hroles.2⟩⟩
  | [], h | [_], h | [_, _], h | _ :: _ :: _ :: _ :: _, h => exact absurd h.fits (by simp [Tag.fits])

/-- A method has a key and a function. -/
lemma method {kind : MethodKind} (h : (mk s (.method kind isStatic) ks).WellFormed) :
    ∃ k f, ks = [k, f] ∧ k.OfRole Role.isKey ∧ f.Is .func := by
  simpa [ofRole_beq] using two (q := (· == .func)) (fun _ => rfl) h

/-- A method of an object literal has a key and a function. -/
lemma objMethod (h : (mk s .objMethod ks).WellFormed) :
    ∃ k f, ks = [k, f] ∧ k.OfRole Role.isPublicKey ∧ f.Is .func := by
  simpa [ofRole_beq] using two (q := (· == .func)) (fun _ => rfl) h

/-- A property of an object literal has a key and a value. -/
lemma keyValue (h : (mk s .keyValue ks).WellFormed) :
    ∃ k e, ks = [k, e] ∧ k.OfRole Role.isPublicKey ∧ e.Is .expr := by
  simpa [ofRole_beq] using two (q := (· == .expr)) (fun _ => rfl) h

/-- A field has a key, and perhaps an initializer. -/
lemma field (h : (mk s (.field isStatic) ks).WellFormed) :
    ∃ k value, ks = k :: value ∧ k.OfRole Role.isKey ∧ (value = [] ∨ ∃ v, value = [v] ∧ v.Is .expr) := by
  match ks, h with
  | [k], h => exact ⟨k, [], rfl, ⟨h.kid (by simp), h.fits⟩, .inl rfl⟩
  | [k, v], h =>
    have hroles := h.fits
    simp only [Tag.fits, map_cons, map_nil, Bool.and_eq_true, beq_iff_eq] at hroles
    exact ⟨k, [v], rfl, ⟨h.kid (by simp), hroles.1⟩, .inr ⟨v, rfl, h.kid (by simp), hroles.2⟩⟩
  | [], h | _ :: _ :: _ :: _, h => exact absurd h.fits (by simp [Tag.fits])

/-- A property of `super` has a key. -/
lemma superMember {w : Span} (h : (mk s (.superMember w) ks).WellFormed) :
    ∃ k, ks = [k] ∧ k.OfRole Role.isPublicKey := by
  match ks, h with
  | [k], h => exact ⟨k, rfl, h.kid (by simp), h.fits⟩
  | [], h | _ :: _ :: _, h => exact absurd h.fits (by simp [Tag.fits])

/-- A rest parameter has a pattern. -/
lemma restPat (h : (mk s .restPat ks).WellFormed) : ∃ p, ks = [p] ∧ p.OfRole Role.isTarget := by
  match ks, h with
  | [p], h => exact ⟨p, rfl, h.kid (by simp), h.fits⟩
  | [], h | _ :: _ :: _, h => exact absurd h.fits (by simp [Tag.fits])

/-- A pattern with a default has both. -/
lemma assignPat (h : (mk s .assignPat ks).WellFormed) : ∃ p v, ks = [p, v] ∧ p.OfRole Role.isTarget ∧ v.Is .expr := by
  simpa [ofRole_beq] using two (q := (· == .expr)) (fun _ => rfl) h

/-- A property of a pattern has a key and a pattern. -/
lemma patKeyValue (h : (mk s .patKeyValue ks).WellFormed) :
    ∃ k p, ks = [k, p] ∧ k.OfRole Role.isPublicKey ∧ p.OfRole Role.isTarget :=
  two (fun _ => rfl) h

/-- An arrow has parameters, and a block or an expression. -/
lemma arrow (h : (mk s (.arrow a) ks).WellFormed) :
    ∃ p b, ks = [p, b] ∧ p.Is .params ∧ (b.Is .expr ∨ b.Is .block) := by
  have hroles := h.fits
  simp only [Tag.fits, Bool.or_eq_true, beq_iff_eq] at hroles
  rcases hroles with hroles | hroles
  · obtain ⟨p, b, rfl, hp, hb⟩ := map_role_eq_pair hroles
    exact ⟨p, b, rfl, ⟨h.kid (by simp), hp⟩, .inl ⟨h.kid (by simp), hb⟩⟩
  · obtain ⟨p, b, rfl, hp, hb⟩ := map_role_eq_pair hroles
    exact ⟨p, b, rfl, ⟨h.kid (by simp), hp⟩, .inr ⟨h.kid (by simp), hb⟩⟩

end Node.WellFormed

end EcmaLower
