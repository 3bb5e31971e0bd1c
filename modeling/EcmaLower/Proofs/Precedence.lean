import EcmaLower.Proofs.Tree
import EcmaLower.Syntax.Build
import Mathlib.Data.List.Forall2

/-!
# Precedence

Parentheses are printed where a tree has them and nowhere else. A tree can be read back from its text if
each expression stands at a position that admits it as it is. This module says what a position can see of
an expression, its *face*, and which faces each position of the grammar admits.

An operand that is followed by arguments, properties or templates is a call as soon as a call is among
them. That matters only behind `new`, whose first arguments would be taken for those of the call.
-/

namespace EcmaLower

open Node List

variable {t : Tag} {s : Span} {ks : List Node} {toCall : Bool} {p : Position} {f f' : Face} {i : Nat} {k n : Node}

/-! ## Faces -/

/-- The productions of expressions, from the loosest to the tightest. -/
inductive Level
  | sequence
  | assignment
  | conditional
  | binary (op : BinaryOp)
  | unary
  | update
  /-- An optional chain. -/
  | chain
  /-- `new` without arguments. -/
  | bareNew
  | call
  /-- A primary expression, or a property of one. -/
  | member
deriving DecidableEq, Repr

/-- How tightly a production binds. -/
def Level.rank : Level → Nat
  | sequence => 0
  | assignment => 1
  | conditional => 2
  | binary op => op.precedence + 2
  | unary => 14
  | update => 15
  | chain | bareNew | call | member => 16

/-- What a text starts with, as far as statements and arrows tell it apart. -/
inductive Start
  | functionWord
  | classWord
  | brace
  | other
deriving DecidableEq, Repr

/-- What a position can see of an expression. -/
structure Face where
  level : Level := .member
  start : Start := .other
  /-- Whether an `in` stands outside all brackets. -/
  hasIn : Bool := false
deriving DecidableEq, Repr

namespace Tag

/-- Whether the operand that a node starts with decides whether it is a call. -/
def isSubscript : Tag → Bool
  | .member | .tagged .. => true
  | _ => false

/-- The production of a node. Of a key in brackets it counts only whether it has commas. -/
def level : Tag → List Face → Level
  | .seq, _ => .sequence
  | .assign _, _ | .arrow _, _ | .yield _, _ => .assignment
  | .cond, _ => .conditional
  | .binary op, _ => .binary op
  | .unary _, _ | .await, _ => .unary
  | .update .., _ => .update
  | .optMember _, _ | .optCall _, _ => .chain
  | .new false, _ => .bareNew
  | .call, _ | .superCall _, _ | .importCall .., _ => .call
  | .member, f :: _ | .tagged .., f :: _ => if f.level = .call then .call else .member
  | .keyComputed, f :: _ => if f.level = .sequence then .sequence else .member
  | _, _ => .member

/-- Whether a node starts with its first child. -/
def startsWithFirst : Tag → Bool
  | .seq | .assign _ | .cond | .binary _ | .update _ false | .member | .call | .tagged .. | .optMember _
  | .optCall _ => true
  | _ => false

/-- What a node starts with that does not start with a child. -/
def ownStart : Tag → Start
  | .funcExpr _ => .functionWord
  | .classExpr _ => .classWord
  | .object | .objectPat => .brace
  | _ => .other

/-- Whether a node itself writes an `in`. -/
def writesIn : Tag → Bool
  | .binary .isIn | .assign (.compound .isIn) => true
  | _ => false

/-- Whether a child stands outside all brackets of a node. -/
def isOpen : Tag → Nat → Bool
  | .binary _, _ | .seq, _ | .yield _, _ | .varDecl _, _ | .assign _, 1 | .arrow _, 1 | .declarator, 1
  | .cond, 0 | .cond, 2 => true
  | _, _ => false

/-- The face of a node, given those of its children. -/
def face (t : Tag) (fs : List Face) : Face where
  level := t.level fs
  start := if t.startsWithFirst then (fs.head?.map Face.start).getD .other else t.ownStart
  hasIn := t.writesIn || fs.zipIdx.any fun x => t.isOpen x.2 && x.1.hasIn

end Tag

/-- What a position can see of a node. -/
def Node.face (n : Node) : Face := n.fold fun _ t ks => t.face (ks.map (·.2))

lemma face_mk (s : Span) (t : Tag) (ks : List Node) : (mk s t ks).face = t.face (ks.map Node.face) := by
  rw [Node.face, fold_mk, map_map]
  rfl

/-! ## Positions -/

/-- The positions of the grammar. -/
inductive Position
  /-- In brackets, or no expression at all. -/
  | free
  /-- An expression as a statement. -/
  | statement
  /-- An argument, an element, an initializer or a value. -/
  | assignment
  /-- The expression behind the arrow of a function. -/
  | arrowBody
  /-- The test of a conditional expression. -/
  | test
  | left (op : BinaryOp)
  | right (op : BinaryOp)
  /-- The operand of a prefix operator. -/
  | operand
  /-- The target of an assignment or an update, or what a class extends. -/
  | leftHand
  /-- What a call, a property or a template is applied to. -/
  | base
  /-- What a link of an optional chain is applied to. -/
  | chained (optional : Bool)
  /-- The operand of `new`. -/
  | constructed (hasArgs : Bool)
  /-- The first clause of a `for`. -/
  | forInit
  /-- The head of a `for` over an object. -/
  | forTarget
deriving DecidableEq, Repr

namespace Tag

/-- The positions of the children of a node. -/
def position : Tag → Nat → Position
  | .exprStmt, _ => .statement
  | .array, _ | .seq, _ | .superCall _, _ | .importCall .., _ | .spread, _ | .yield _, _ | .keyValue, _
  | .initShorthand _, _ | .objMethod, _ | .getter, _ | .setter, _ | .method .., _ | .field _, _
  | .patName _, _ | .declarator, _ | .call, _ + 1 | .new _, _ + 1 | .optCall _, _ + 1 | .assign _, _ + 1
  | .cond, _ + 1 | .forOf _, _ + 1 | .assignPat, _ + 1 | .patKeyValue, 0 => .assignment
  | .arrow _, _ => .arrowBody
  | .cond, 0 => .test
  | .binary op, 0 => .left op
  | .binary op, _ + 1 => .right op
  | .unary _, _ | .await, _ => .operand
  | .update .., _ | .assign _, 0 | .cls, _ | .arrayPat, _ | .restPat, _ | .assignPat, 0
  | .patKeyValue, _ + 1 => .leftHand
  | .member, 0 | .call, 0 | .tagged .., 0 => .base
  | .optMember optional, 0 | .optCall optional, 0 => .chained optional
  | .new hasArgs, 0 => .constructed hasArgs
  | .forStmt, 0 => .forInit
  | .forIn, 0 | .forOf _, 0 => .forTarget
  | _, _ => .free

end Tag

/-- The left operands of an operator. Powers group to the right and take no prefix operators, and `??` is not
mixed with the other logical operators. -/
def BinaryOp.admitsLeft (op : BinaryOp) (l : Level) : Bool :=
  match op with
  | .pow => decide (Level.update.rank ≤ l.rank)
  | .nullish => l == .binary .nullish || decide ((Level.binary .bitOr).rank ≤ l.rank)
  | .or => l != .binary .nullish && decide ((Level.binary .or).rank ≤ l.rank)
  | op => decide ((Level.binary op).rank ≤ l.rank)

/-- The right operands of an operator. -/
def BinaryOp.admitsRight (op : BinaryOp) (l : Level) : Bool :=
  match op with
  | .pow => decide ((Level.binary .pow).rank ≤ l.rank)
  | .nullish => decide ((Level.binary .bitOr).rank ≤ l.rank)
  | op => decide ((Level.binary op).rank < l.rank)

/-- Whether a position admits an expression without parentheses. -/
def Position.admits : Position → Face → Bool
  | .free, _ => true
  | .statement, f => f.start == .other
  | .assignment, f => decide (Level.assignment.rank ≤ f.level.rank)
  | .arrowBody, f => decide (Level.assignment.rank ≤ f.level.rank) && f.start != .brace
  | .test, f => decide (Level.conditional.rank < f.level.rank)
  | .left op, f => op.admitsLeft f.level
  | .right op, f => op.admitsRight f.level
  | .operand, f => decide (Level.unary.rank ≤ f.level.rank)
  | .leftHand, f => decide (Level.member.rank ≤ f.level.rank)
  | .base, f => f.level == .member || f.level == .call
  | .chained optional, f => f.level == .chain || (optional && (f.level == .member || f.level == .call))
  | .constructed true, f => f.level == .member
  | .constructed false, f => f.level == .member || f.level == .bareNew
  | .forInit, f => !f.hasIn
  | .forTarget, f => decide (Level.member.rank ≤ f.level.rank) && !f.hasIn

/-- Whether every child of a node stands at a position that admits it. -/
def Node.admitsKids (n : Node) : Bool := n.kids.zipIdx.all fun x => (n.tag.position x.2).admits x.1.face

/-- Whether every expression of a script stands at a position that admits it. -/
def Script.parenSafe (s : Script) : Bool := !s.body.any (·.any fun n => !n.admitsKids)

/-! ## Improvement -/

/-- A face may take the place of another: an operand may become a call, which `toCall` tells, and an
assignment an operation. -/
structure Face.Improves (toCall : Bool) (f f' : Face) : Prop where
  level : if toCall = true then f.level = .member ∧ f'.level = .call else
    f'.level = f.level ∨ (f.level = .assignment ∧ ∃ op, f'.level = .binary op)
  start : f'.start = f.start ∨ f'.start = .other
  hasIn : f'.hasIn = true → f.hasIn = true

namespace Face.Improves

variable {toCall : Bool} {f f' : Face}

lemma refl (f : Face) : Improves false f f := ⟨.inl rfl, .inl rfl, id⟩

lemma level_cases (h : Improves toCall f f') : f'.level = f.level ∨
    (f.level = .assignment ∧ ∃ op, f'.level = .binary op) ∨ (f.level = .member ∧ f'.level = .call) := by
  have hlevel := h.level
  split at hlevel
  · exact .inr (.inr hlevel)
  · exact hlevel.imp_right .inl

lemma rank_le (h : Improves toCall f f') : f.level.rank ≤ f'.level.rank := by
  rcases h.level_cases with hl | ⟨hl, op, hl'⟩ | ⟨hl, hl'⟩
  · exact Nat.le_of_eq (congrArg Level.rank hl.symm)
  · rw [hl, hl']
    exact Nat.succ_le_of_lt (Nat.succ_pos _)
  · rw [hl, hl']
    exact Nat.le_refl _

lemma eq_call_iff (h : Improves false f f') : f'.level = .call ↔ f.level = .call := by
  rcases h.level with hl | ⟨hl, op, hl'⟩
  · rw [hl]
  · simp [hl, hl']

lemma eq_sequence_iff (h : Improves toCall f f') : f'.level = .sequence ↔ f.level = .sequence := by
  rcases h.level_cases with hl | ⟨hl, op, hl'⟩ | ⟨hl, hl'⟩
  · rw [hl]
  · simp [hl, hl']
  · simp [hl, hl']

end Face.Improves

/-- Whether a position admits an expression, if the operands of `new` do not count. -/
def Position.seats : Position → Face → Bool
  | .constructed _, _ => true
  | p, f => p.admits f

lemma BinaryOp.admitsLeft_of_improves (h : f.Improves toCall f') (op : BinaryOp) (ha : op.admitsLeft f.level = true) :
    op.admitsLeft f'.level = true := by
  rcases h.level_cases with hl | ⟨hl, op', hl'⟩ | ⟨hl, hl'⟩
  · rwa [hl]
  · rw [hl] at ha
    cases op <;> cases ha
  · rw [hl']
    cases op <;> rfl

lemma BinaryOp.admitsRight_of_improves (h : f.Improves toCall f') (op : BinaryOp)
    (ha : op.admitsRight f.level = true) : op.admitsRight f'.level = true := by
  rcases h.level_cases with hl | ⟨hl, op', hl'⟩ | ⟨hl, hl'⟩
  · rwa [hl]
  · rw [hl] at ha
    cases op <;> cases ha
  · rw [hl']
    cases op <;> rfl

/-- **Positions admit what improves**, the operands of `new` apart. -/
lemma Position.seats_of_improves (h : f.Improves toCall f') (hp : p.seats f = true) : p.seats f' = true := by
  have hrank := h.rank_le
  have hin : f.hasIn = false → f'.hasIn = false := fun hf => eq_false_of_ne_true fun hf' => by
    rw [h.hasIn hf'] at hf
    cases hf
  cases p with
  | free | constructed => rfl
  | statement =>
    rcases h.start with hs | hs
    · simpa [seats, admits, hs] using hp
    · simp [seats, admits, hs]
  | assignment | test | operand | leftHand =>
    simp only [seats, admits, decide_eq_true_eq] at hp ⊢
    omega
  | arrowBody =>
    simp only [seats, admits, Bool.and_eq_true, decide_eq_true_eq, bne_iff_ne] at hp ⊢
    refine ⟨by omega, ?_⟩
    rcases h.start with hs | hs
    · rw [hs]
      exact hp.2
    · simp [hs]
  | left op => exact op.admitsLeft_of_improves h hp
  | right op => exact op.admitsRight_of_improves h hp
  | base | chained optional =>
    rcases h.level_cases with hl | ⟨hl, op, hl'⟩ | ⟨hl, hl'⟩ <;> simp_all [seats, admits]
  | forInit =>
    simp only [seats, admits, Bool.not_eq_true'] at hp ⊢
    exact hin hp
  | forTarget =>
    simp only [seats, admits, Bool.and_eq_true, decide_eq_true_eq, Bool.not_eq_true'] at hp ⊢
    exact ⟨by omega, hin hp.2⟩

/-- Behind `new` an operand may not become a call. -/
lemma Position.admits_constructed {hasArgs : Bool} (h : f.Improves toCall f') :
    (Position.constructed hasArgs).admits f' = ((Position.constructed hasArgs).admits f && !toCall) := by
  cases toCall with
  | true =>
    obtain ⟨hl, hl'⟩ := h.level
    cases hasArgs <;> simp [admits, hl']
  | false =>
    rcases h.level with hl | ⟨hl, op, hl'⟩
    · cases hasArgs <;> simp [admits, hl]
    · cases hasArgs <;> simp only [admits, hl, hl'] <;> rfl

/-! ## Nodes -/

section Nodes

variable {head : Node → Bool} {ks ks' : List Node}

lemma hasIn_of_forall₂ (hks : Forall₂ (fun k k' => k'.face.hasIn = true → k.face.hasIn = true) ks ks')
    (h : (t.face (ks'.map Node.face)).hasIn = true) : (t.face (ks.map Node.face)).hasIn = true := by
  have hany : ∀ i, ((ks'.map Node.face).zipIdx i).any (fun x => t.isOpen x.2 && x.1.hasIn) = true →
      ((ks.map Node.face).zipIdx i).any (fun x => t.isOpen x.2 && x.1.hasIn) = true := by
    clear h
    induction hks with
    | nil => exact fun i h => h
    | cons hk _ ih =>
      intro i h
      simp only [map_cons, zipIdx_cons, any_cons, Bool.or_eq_true, Bool.and_eq_true] at h ⊢
      exact h.imp (fun h => ⟨h.1, hk h.2⟩) (ih (i + 1))
  simp only [Tag.face, Bool.or_eq_true] at h ⊢
  exact h.imp_right (hany 0)

lemma start_of_forall₂ (hks : Forall₂ (fun k k' => k.face.Improves (head k) k'.face) ks ks') :
    (t.face (ks'.map Node.face)).start = (t.face (ks.map Node.face)).start ∨
      (t.face (ks'.map Node.face)).start = .other := by
  simp only [Tag.face]
  split
  · cases hks with
    | nil => exact .inl rfl
    | cons hk _ => exact hk.start
  · exact .inl rfl

/-- A node becomes a call if the operand does that it starts with. -/
lemma level_of_forall₂ (hks : Forall₂ (fun k k' => k.face.Improves (head k) k'.face) ks ks') :
    if (t.isSubscript && ks.head?.any head) = true then
      t.level (ks.map Node.face) = .member ∧ t.level (ks'.map Node.face) = .call
    else t.level (ks'.map Node.face) = t.level (ks.map Node.face) := by
  cases hks with
  | nil => cases t <;> rfl
  | @cons k k' _ _ hk _ =>
    cases t with
    | member | tagged =>
      cases hhead : head k with
      | true =>
        rw [hhead] at hk
        obtain ⟨hl, hl'⟩ := hk.level
        simp [Tag.isSubscript, Tag.level, hhead, hl, hl']
      | false =>
        rw [hhead] at hk
        simp [Tag.isSubscript, Tag.level, hhead, hk.eq_call_iff]
    | keyComputed =>
      simp only [Tag.isSubscript, Bool.false_and, Bool.false_eq_true, if_false, map_cons, Tag.level,
        hk.eq_sequence_iff]
    | new hasArgs => cases hasArgs <;> rfl
    | _ => rfl

/-- **A node improves with its children.** -/
lemma improves_mk (hks : Forall₂ (fun k k' => k.face.Improves (head k) k'.face) ks ks') :
    (mk s t ks).face.Improves (t.isSubscript && ks.head?.any head) (mk s t ks').face := by
  rw [face_mk, face_mk]
  refine ⟨?_, start_of_forall₂ hks, hasIn_of_forall₂ (hks.imp fun _ _ hk => hk.hasIn)⟩
  have hlevel := level_of_forall₂ (t := t) hks
  split at hlevel
  · rw [if_pos ‹_›]
    exact hlevel
  · rw [if_neg ‹_›]
    exact .inl hlevel

end Nodes

/-! ## Safety -/

/-- Whether every child of a node, an operand of `new` apart, stands at a position that admits it. -/
def Node.seatsKids (n : Node) : Bool := n.kids.zipIdx.all fun x => (n.tag.position x.2).seats x.1.face

/-- Whether a node is a `new` with an operand that needs parentheses. -/
def Node.refusesOperand : Node → Bool
  | .mk _ (.new hasArgs) (callee :: _) => !(Position.constructed hasArgs).admits callee.face
  | _ => false

/-- Every expression in a node, operands of `new` apart, stands at a position that admits it. -/
def Seated (n : Node) : Prop := n.any (fun m => !m.seatsKids) = false

/-- A node stands at a position, with all that is in it. -/
def Stands (p : Position) (n : Node) : Prop := p.seats n.face = true ∧ Seated n

lemma forall_mem_zipIdx {P : Node → Prop} : (∀ x ∈ ks.zipIdx i, P x.1) ↔ ∀ k ∈ ks, P k := by
  nth_rewrite 2 [← zipIdx_map_fst i ks]
  exact forall_mem_map.symm

/-- What holds of the children of all nodes in a tree, at their positions. -/
lemma any_kids_eq_false {test : Position → Face → Bool} :
    let fails := fun m : Node => !m.kids.zipIdx.all fun x => test (m.tag.position x.2) x.1.face
    (mk s t ks).any fails = false ↔
      ∀ x ∈ ks.zipIdx, test (t.position x.2) x.1.face = true ∧ x.1.any fails = false := by
  intro fails
  rw [any_mk, Bool.or_eq_false_iff, Bool.not_eq_false', all_eq_true, any_eq_false]
  simp only [Bool.not_eq_true]
  exact (and_congr_right' forall_mem_zipIdx.symm).trans forall₂_and.symm

lemma seated_mk : Seated (mk s t ks) ↔ ∀ x ∈ ks.zipIdx, Stands (t.position x.2) x.1 := any_kids_eq_false

lemma Seated.kid (h : Seated (mk s t ks)) (hk : k ∈ ks) : Seated k := by
  obtain ⟨i, hi⟩ := mem_iff_getElem?.mp hk
  exact (seated_mk.mp h (k, i) (mem_zipIdx_iff_getElem?.mpr hi)).2

/-- The children of some nodes all have one position. -/
lemma seated_mk_of_position (ht : ∀ i, t.position i = p) : Seated (mk s t ks) ↔ ∀ k ∈ ks, Stands p k := by
  rw [seated_mk]
  simp only [ht]
  exact forall_mem_zipIdx

lemma Stands.of_improves {n' : Node} (h : Stands p n) (hi : n.face.Improves toCall n'.face)
    (hs : Seated n → Seated n') : Stands p n' :=
  ⟨Position.seats_of_improves hi h.1, hs h.2⟩

/-- **A node stays seated with its children**, if they improve. -/
lemma seated_of_forall₂ {head : Node → Bool} {s' : Span} {ks' : List Node}
    (hks : Forall₂ (fun k k' => k.face.Improves (head k) k'.face ∧ (Seated k → Seated k')) ks ks')
    (h : Seated (mk s t ks)) : Seated (mk s' t ks') := by
  rw [seated_mk] at h ⊢
  generalize 0 = i at h ⊢
  induction hks generalizing i with
  | nil => exact h
  | cons hk _ ih =>
    rw [zipIdx_cons, forall_mem_cons] at h ⊢
    exact ⟨h.1.of_improves hk.1 hk.2, ih (i + 1) h.2⟩

lemma Position.seats_eq (h : ∀ hasArgs, p ≠ .constructed hasArgs) (f : Face) : p.seats f = p.admits f := by
  cases p with
  | constructed hasArgs => exact absurd rfl (h hasArgs)
  | _ => rfl

/-- Only the first child of a `new` is its operand. -/
lemma Tag.position_ne_constructed (h : ∀ hasArgs, t = .new hasArgs → i ≠ 0) (hasArgs : Bool) :
    t.position i ≠ .constructed hasArgs := by
  cases t with
  | new b =>
    obtain ⟨j, rfl⟩ := Nat.exists_eq_succ_of_ne_zero (h b rfl)
    simp [position]
  | _ =>
    intro hp
    cases i <;> cases hp

/-- The operands of `new` are told apart from the rest. -/
lemma admitsKids_iff (n : Node) : n.admitsKids = true ↔ n.seatsKids = true ∧ n.refusesOperand = false := by
  obtain ⟨s, t, ks⟩ := n
  have hsame : ∀ l : List (Node × Nat), (∀ hasArgs, t = .new hasArgs → ∀ x ∈ l, x.2 ≠ 0) →
      ((∀ x ∈ l, (t.position x.2).admits x.1.face = true) ↔ ∀ x ∈ l, (t.position x.2).seats x.1.face = true) := by
    intro l hl
    refine forall₂_congr fun x hx => ?_
    rw [Position.seats_eq (Tag.position_ne_constructed fun b hb => hl b hb x hx)]
  simp only [admitsKids, seatsKids, all_eq_true, kids_mk, tag_mk]
  by_cases hnew : ∃ hasArgs, t = .new hasArgs
  · obtain ⟨hasArgs, rfl⟩ := hnew
    cases ks with
    | nil => simp [refusesOperand]
    | cons callee args =>
      have hargs := hsame (args.zipIdx (0 + 1)) fun _ _ x hx =>
        Nat.ne_of_gt (le_snd_of_mem_zipIdx hx)
      rw [zipIdx_cons, forall_mem_cons, forall_mem_cons, hargs, refusesOperand, Bool.not_eq_false']
      exact ⟨fun h => ⟨⟨rfl, h.2⟩, h.1⟩, fun h => ⟨h.2, h.1.2⟩⟩
  · rw [hsame _ fun hasArgs ht => absurd ⟨hasArgs, ht⟩ hnew]
    refine (and_iff_left ?_).symm
    cases t with
    | new hasArgs => exact absurd ⟨hasArgs, rfl⟩ hnew
    | _ => rfl

lemma Script.any_body_eq_false_iff (s : Script) (p : Node → Bool) :
    s.body.any (·.any p) = false ↔ ∀ m, s.Contains m → p m = false := by
  rw [← Bool.not_eq_true, any_body_iff]
  simp

/-- Every expression in a node stands at a position that admits it. -/
def Safe (n : Node) : Prop := n.any (fun m => !m.admitsKids) = false

/-- A node is safe at a position, with all that is in it. -/
def SafeAt (p : Position) (n : Node) : Prop := p.admits n.face = true ∧ Safe n

lemma safe_mk : Safe (mk s t ks) ↔ ∀ x ∈ ks.zipIdx, SafeAt (t.position x.2) x.1 := any_kids_eq_false

lemma safe_mk_of_position (ht : ∀ i, t.position i = p) : Safe (mk s t ks) ↔ ∀ k ∈ ks, SafeAt p k := by
  rw [safe_mk]
  simp only [ht]
  exact forall_mem_zipIdx

/-- A node in whose brackets anything can stand. -/
lemma safe_free (ht : ∀ i, t.position i = .free) : Safe (mk s t ks) ↔ ∀ k ∈ ks, Safe k := by
  rw [safe_mk_of_position ht]
  exact forall₂_congr fun k _ => and_iff_right rfl

lemma Safe.kid (h : Safe (mk s t ks)) (hk : k ∈ ks) : Safe k := by
  obtain ⟨i, hi⟩ := mem_iff_getElem?.mp hk
  exact (safe_mk.mp h (k, i) (mem_zipIdx_iff_getElem?.mpr hi)).2

lemma Safe.within {m : Node} (h : Safe n) (hm : m.Within n) : Safe m := by
  induction hm with
  | refl => exact h
  | kid hk _ ih => exact ih (h.kid hk)

/-- What makes a node safe: the operands of `new`, and all the rest. -/
lemma safe_iff (n : Node) : Safe n ↔ Seated n ∧ n.any refusesOperand = false := by
  simp only [Safe, Seated, ← Bool.not_eq_true, any_iff, not_exists, not_and, ← forall₂_and]
  refine forall₂_congr fun m _ => ?_
  simpa using admitsKids_iff m

lemma Script.parenSafe_iff_forall_safe (s : Script) : s.parenSafe = true ↔ ∀ n ∈ s.body, Safe n := by
  simp [parenSafe, Safe]

/-- **What makes a script safe**: the operands of `new`, and all the rest. -/
lemma Script.parenSafe_iff (s : Script) : s.parenSafe = true ↔
    (∀ n ∈ s.body, Seated n) ∧ s.body.any (·.any refusesOperand) = false := by
  simp only [parenSafe_iff_forall_safe, safe_iff, any_eq_false, Bool.not_eq_true]
  exact forall₂_and

end EcmaLower
