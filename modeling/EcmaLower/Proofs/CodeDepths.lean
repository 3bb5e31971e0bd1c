import EcmaLower.Proofs.SuperUses
import Mathlib.Algebra.BigOperators.Group.Multiset.Basic

/-!
# How often code is evaluated

A node that comes from the source has a place there. This module follows the nodes that the lowering of classes
carries over, and with each of them the number of functions around it: code is evaluated as often as before if
it stands in the tree as often as before, under as many functions. A function that is called where it is written
does not count, since it runs once. What is written anew, such as `this` or the call of a parent, is followed by
the code in it.

The lowering of `super` writes the key of a compound assignment twice. Everything else it keeps where it is.
-/

namespace EcmaLower

open Node List SuperContext

variable {x : Setting} {ks ks' args es : List Node} {t : Tag} {s st w : Span} {key f k n value : Node}
  {R : Node → Node → Prop} {op : AssignOp} {i : Nat} {e? : Option Node} {P : ℕ → Node → Prop}

/-! ## Growing multisets -/

/-- The sum of the elements, each of them counted one higher. -/
def weight (a : Multiset ℕ) : ℕ := (a.map (· + 1)).sum

@[simp] lemma weight_add (a b : Multiset ℕ) : weight (a + b) = weight a + weight b := by
  simp [weight]

lemma eq_zero_of_weight {a : Multiset ℕ} (h : weight a = 0) : a = 0 := by
  induction a using Multiset.induction with
  | empty => rfl
  | cons x a _ => simp [weight] at h

/-- The elements of `b` are those of `a`, of which some are raised or repeated exactly if `P` holds. -/
structure Grows (P : Prop) (a b : Multiset ℕ) : Prop where
  card_le : a.card ≤ b.card
  zero : a = 0 → b = 0
  weight_le : weight a ≤ weight b
  eq_of_weight : weight a = weight b → a = b
  eq_iff : a = b ↔ ¬P

namespace Grows

variable {P Q : Prop} {a b c a' b' : Multiset ℕ}

lemma refl (a : Multiset ℕ) : Grows False a a := ⟨le_rfl, id, le_rfl, fun _ => rfl, by simp⟩

lemma congr (h : Grows P a b) (hPQ : P ↔ Q) : Grows Q a b :=
  ⟨h.card_le, h.zero, h.weight_le, h.eq_of_weight, h.eq_iff.trans (not_congr hPQ)⟩

/-- It is enough to compare the weights. -/
lemma of_weight (hcard : a.card ≤ b.card) (hzero : a = 0 → b = 0) (hle : weight a ≤ weight b)
    (hw : weight a = weight b → ¬P) (heq : ¬P → a = b) : Grows P a b :=
  ⟨hcard, hzero, hle, fun h => heq (hw h), fun h => hw (congrArg weight h), heq⟩

lemma add (h : Grows P a b) (h' : Grows Q a' b') : Grows (P ∨ Q) (a + a') (b + b') := by
  have hle := h.weight_le
  have hle' := h'.weight_le
  refine of_weight ?_ ?_ ?_ ?_ ?_
  · simpa using Nat.add_le_add h.card_le h'.card_le
  · rw [← Multiset.card_eq_zero, Multiset.card_add, Nat.add_eq_zero_iff, Multiset.card_eq_zero, Multiset.card_eq_zero]
    rintro ⟨ha, ha'⟩
    rw [h.zero ha, h'.zero ha', add_zero]
  · simpa using Nat.add_le_add hle hle'
  · rw [weight_add, weight_add, not_or, ← h.eq_iff, ← h'.eq_iff]
    exact fun hw => ⟨h.eq_of_weight (by omega), h'.eq_of_weight (by omega)⟩
  · rw [not_or, ← h.eq_iff, ← h'.eq_iff]
    exact fun heq => congrArg₂ _ heq.1 heq.2

lemma trans (h : Grows P a b) (h' : Grows Q b c) : Grows (P ∨ Q) a c := by
  have hle := h.weight_le
  have hle' := h'.weight_le
  refine of_weight (h.card_le.trans h'.card_le) (h'.zero ∘ h.zero) (hle.trans hle') (fun hw => ?_) ?_
  · rw [not_or, ← h.eq_iff, ← h'.eq_iff]
    exact ⟨h.eq_of_weight (by omega), h'.eq_of_weight (by omega)⟩
  · rw [not_or, ← h.eq_iff, ← h'.eq_iff]
    exact fun heq => heq.1.trans heq.2

/-- Nothing is made or destroyed. -/
lemma eq_zero_iff (h : Grows P a b) : b = 0 ↔ a = 0 := by
  refine ⟨fun hb => ?_, h.zero⟩
  have hle := h.card_le
  rw [hb, Multiset.card_zero] at hle
  exact Multiset.card_eq_zero.mp (Nat.le_zero.mp hle)

/-- Code that is written twice. -/
lemma twice (h : Grows P a b) : Grows (P ∨ a ≠ 0) a (b + b) := by
  have hle := h.weight_le
  refine of_weight ?_ (fun ha => by rw [h.zero ha, add_zero]) ?_ (fun hw => ?_) fun hnot => ?_
  · exact h.card_le.trans (by simp)
  · exact hle.trans (by simp)
  · rw [weight_add] at hw
    have hb := eq_zero_of_weight (a := b) (by omega)
    rw [not_or, ← h.eq_iff, not_not, hb, h.eq_zero_iff.mp hb]
    exact ⟨rfl, rfl⟩
  · obtain ⟨-, ha⟩ := not_or.mp hnot
    rw [h.zero (not_not.mp ha), not_not.mp ha, add_zero]

/-- Code that is moved into a function. -/
lemma raise (a : Multiset ℕ) : Grows (a ≠ 0) a (a.map (· + 1)) := by
  have hweight : weight (a.map (· + 1)) = weight a + a.card := by
    induction a using Multiset.induction with
    | empty => rfl
    | cons x a ih =>
      simp only [weight, Multiset.map_cons, Multiset.sum_cons, Multiset.card_cons] at ih ⊢
      omega
  refine of_weight (Multiset.card_map _ _).ge (by simp) (by omega) (fun hw => ?_) fun hnot => ?_
  · exact not_not.mpr (Multiset.card_eq_zero.mp (by omega))
  · rw [not_not.mp hnot, Multiset.map_zero]

/-- The same for lists of code, part by part. -/
lemma sum_mapIdx (h : Forall₂ R ks ks') {P : ℕ → Node → Prop} {f : ℕ → Node → Multiset ℕ}
    (hf : ∀ i k k', ks[i]? = some k → R k k' → Grows (P i k) (f i k) (f i k')) :
    Grows (∃ i k, ks[i]? = some k ∧ P i k) (ks.mapIdx f).sum (ks'.mapIdx f).sum := by
  induction h generalizing P f with
  | nil => exact (refl 0).congr (by simp)
  | @cons k k' ks ks' hk _ ih =>
    rw [mapIdx_cons, mapIdx_cons, sum_cons, sum_cons]
    refine ((hf 0 k k' rfl hk).add (ih fun i x x' hi => hf (i + 1) x x' hi)).congr ?_
    constructor
    · rintro (h | ⟨i, x, hi, h⟩)
      · exact ⟨0, k, rfl, h⟩
      · exact ⟨i + 1, x, hi, h⟩
    · rintro ⟨_ | i, x, hi, h⟩
      · exact .inl (Option.some_inj.mp hi ▸ h)
      · exact .inr ⟨i, x, hi, h⟩

lemma sum_map (h : Forall₂ R ks ks') {P : Node → Prop} {f g : Node → Multiset ℕ}
    (hf : ∀ k ∈ ks, ∀ k', R k k' → Grows (P k) (f k) (g k')) :
    Grows (∃ k ∈ ks, P k) (ks.map f).sum (ks'.map g).sum := by
  induction h with
  | nil => exact (refl 0).congr (by simp)
  | @cons k k' ks ks' hk _ ih =>
    rw [map_cons, map_cons, sum_cons, sum_cons]
    refine ((hf k (by simp) k' hk).add (ih fun x hx => hf x (by simp [hx]))).congr ?_
    simp

/-- What grows is not empty. -/
lemma ne_zero (h : Grows P a b) (hP : P) : a ≠ 0 := by
  intro ha
  have hb := h.zero ha
  exact h.eq_iff.mp (ha.trans hb.symm) hP

end Grows

/-! ## Depths -/

/-- Where code stands: the number of functions around it, and whether it is called, so that a function that
stands there runs once. -/
structure Setting where
  depth : ℕ
  called : Bool
deriving DecidableEq, Repr

/-- The same setting inside of one more function. -/
def Setting.raise (x : Setting) : Setting := ⟨x.depth + 1, x.called⟩

/-- A setting for code that is not called. -/
def Setting.plain (x : Setting) : Setting := ⟨x.depth, false⟩

/-- The setting of the body of a function. -/
def Setting.body (x : Setting) : Setting := ⟨if x.called then x.depth else x.depth + 1, false⟩

/-- The setting of the `i`-th child of a node, which has the tag `kt`. Constructors and accessors are functions.
The fields of an instance are defined in its constructor, but their keys are computed outside. -/
def Tag.settingAt (x : Setting) : Tag → ℕ → Tag → Setting
  | .paren, _, _ | .funcExpr none, _, _ => x
  | .call, 0, _ => ⟨x.depth, true⟩
  | .func .., _, _ | .arrow _, _, _ => x.body
  | .field false, 0, .keyComputed => x.plain
  | .ctor, _, _ | .getter, 1, _ | .setter, 1, _ | .setter, 2, _ | .field false, _, _ => ⟨x.depth + 1, false⟩
  | _, _, _ => x.plain

/-- Whether the `i`-th child of a node, which has the tag `kt`, is code. The key of a constructor only says what
it is, and the name of an accessor is not a name any more when it is defined. -/
def Tag.isCode : Tag → ℕ → Tag → Bool
  | .ctor, 0, _ | .method .getter _, 0, .keyName _ | .method .setter _, 0, .keyName _ => false
  | _, _, _ => true

/-- The tag of a literal that stands as a key. -/
def Tag.asLiteral : Tag → Tag
  | .keyStr s => .str s
  | .keyNum n => .num n
  | .keyBigInt raw => .bigInt raw
  | t => t

/-- Whether a node is carried over: it does not use the receiver, it is no part of a class, and it is not
written anew around what is carried over. -/
def Node.isCarried : Node → Bool
  | .mk _ t ks => match t with
    | .this | .superMember _ | .superCall _ | .classExpr _ | .classDecl _ | .cls | .members | .ctor
    | .method .. | .field _ | .emptyMember | .keyComputed | .keyValue | .block
    | .funcExpr none => false
    | .call | .assign _ => (ks.head?.bind superKey?).isNone
    | _ => true

/-- Where a node comes from: its place in the source, and its tag there. -/
structure Origin where
  span : Span
  tag : Tag
  placed : span ≠ Span.none

namespace Node

/-- The depth of a node, if it is carried over and comes from `l`. -/
def depthHere (l : Origin) (n : Node) (x : Setting) : Multiset ℕ :=
  if n.isCarried = true ∧ n.span = l.span ∧ n.tag.asLiteral = l.tag then {x.depth} else 0

/-- The depths of the nodes that are carried over and come from `l`. -/
def depths (l : Origin) (n : Node) : Setting → Multiset ℕ :=
  n.fold fun s t ks x => depthHere l (.mk s t (ks.map (·.1))) x +
    (ks.mapIdx fun i k => if t.isCode i k.1.tag then k.2 (t.settingAt x i k.1.tag) else 0).sum

/-- The depths in the children of a node. -/
def kidDepths (l : Origin) (t : Tag) (ks : List Node) (x : Setting) : Multiset ℕ :=
  (ks.mapIdx fun i k => if t.isCode i k.tag then k.depths l (t.settingAt x i k.tag) else 0).sum

lemma depths_mk (l : Origin) (s : Span) (t : Tag) (ks : List Node) (x : Setting) :
    (mk s t ks).depths l x = depthHere l (mk s t ks) x + kidDepths l t ks x := by
  have hkids : ∀ (g : Node → Node × (Setting → Multiset ℕ)) (f : ℕ → Node × (Setting → Multiset ℕ) → Multiset ℕ),
      (ks.map g).mapIdx f = ks.mapIdx fun i k => f i (g k) := by
    intro g f
    exact ext_getElem? fun i => by simp [Function.comp_def]
  rw [depths, fold_mk, hkids, map_map]
  congr 2
  exact congrArg (mk s t) (map_id ks)

variable {l : Origin}

lemma settingAt_raise (t : Tag) (x : Setting) (i : ℕ) (kt : Tag) :
    t.settingAt x.raise i kt = (t.settingAt x i kt).raise := by
  have hbody : x.raise.body = x.body.raise := by
    obtain ⟨d, c⟩ := x
    cases c <;> rfl
  unfold Tag.settingAt
  split <;> first | rfl | exact hbody

/-- A relation between sums that holds part by part. -/
lemma rel_sum_mapIdx {R : Multiset ℕ → Multiset ℕ → Prop} (hzero : R 0 0)
    (hadd : ∀ {a b a' b'}, R a b → R a' b' → R (a + a') (b + b')) {f g : ℕ → Node → Multiset ℕ}
    (h : ∀ i k, k ∈ ks → R (f i k) (g i k)) : R (ks.mapIdx f).sum (ks.mapIdx g).sum := by
  induction ks generalizing f g with
  | nil => exact hzero
  | cons k ks ih =>
    rw [mapIdx_cons, mapIdx_cons, sum_cons, sum_cons]
    exact hadd (h 0 k (mem_cons_self ..)) (ih fun i x hx => h (i + 1) x (mem_cons_of_mem _ hx))

/-- Code that is moved into a function. -/
lemma depths_raise (n : Node) (x : Setting) : n.depths l x.raise = (n.depths l x).map (· + 1) := by
  induction n generalizing x with
  | mk s t ks ih =>
    have hhere : depthHere l (mk s t ks) x.raise = (depthHere l (mk s t ks) x).map (· + 1) := by
      unfold depthHere
      split <;> rfl
    have hkids : kidDepths l t ks x.raise = (kidDepths l t ks x).map (· + 1) := by
      refine rel_sum_mapIdx (R := fun a b => a = b.map (· + 1)) rfl (fun h h' => ?_) fun i k hk => ?_
      · rw [h, h', Multiset.map_add]
      · split
        · rw [settingAt_raise, ih k hk]
        · rfl
    rw [depths_mk, depths_mk, hhere, hkids, Multiset.map_add]

/-- How often a node occurs does not depend on where the code stands. -/
lemma card_depths (n : Node) (x x' : Setting) : (n.depths l x).card = (n.depths l x').card := by
  induction n generalizing x x' with
  | mk s t ks ih =>
    have hhere : (depthHere l (mk s t ks) x).card = (depthHere l (mk s t ks) x').card := by
      unfold depthHere
      split <;> rfl
    have hkids : (kidDepths l t ks x).card = (kidDepths l t ks x').card := by
      refine rel_sum_mapIdx (R := fun a b => a.card = b.card) rfl (fun h h' => ?_) fun i k hk => ?_
      · rw [Multiset.card_add, Multiset.card_add, h, h']
      · split
        · exact ih k hk _ _
        · rfl
    rw [depths_mk, depths_mk, Multiset.card_add, Multiset.card_add, hhere, hkids]

/-- A tree holds a node that comes from `l`. -/
def Has (l : Origin) (n : Node) : Prop := n.depths l ⟨0, false⟩ ≠ 0

lemma depths_ne_zero_iff : n.depths l x ≠ 0 ↔ n.Has l := by
  rw [Has, ← Multiset.card_pos, ← Multiset.card_pos, card_depths n x]

/-! ## Code that is written -/

lemma depthHere_eq_zero (h : n.isCarried = false ∨ n.span = Span.none) : depthHere l n x = 0 := by
  refine if_neg ?_
  rintro ⟨hc, hs, -⟩
  rcases h with h | h
  · rw [h] at hc
    cases hc
  · exact l.placed (hs ▸ h)

lemma depths_of_not_carried (h : (mk s t ks).isCarried = false) : (mk s t ks).depths l x = kidDepths l t ks x := by
  rw [depths_mk, depthHere_eq_zero (.inl h), zero_add]

lemma depths_make : (Build.make t ks).depths l x = kidDepths l t ks x := by
  rw [Build.make, depths_mk, depthHere_eq_zero (.inr rfl), zero_add]

/-- Children that all are code in one setting. -/
lemma sum_kids {y : Setting} {f : ℕ → ℕ} (h : ∀ i kt, t.isCode (f i) kt = true ∧ t.settingAt x (f i) kt = y) :
    (ks.mapIdx fun i k => if t.isCode (f i) k.tag then
      k.depths l (t.settingAt x (f i) k.tag) else 0).sum = (ks.map (·.depths l y)).sum := by
  refine congrArg sum (ext_getElem? fun i => ?_)
  simp [h]

/-- A node whose children are plain code. -/
lemma kidDepths_plain (h : ∀ i kt, t.isCode i kt = true ∧ t.settingAt x i kt = x.plain) :
    kidDepths l t ks x = (ks.map (·.depths l x.plain)).sum :=
  sum_kids (f := id) h

/-- The arguments of a call are plain code, but for the callee. -/
lemma kidDepths_call : kidDepths l .call (f :: args) x =
    f.depths l ⟨x.depth, true⟩ + (args.map (·.depths l x.plain)).sum := by
  rw [kidDepths, mapIdx_cons, sum_cons, sum_kids (f := (· + 1)) fun _ _ => ⟨rfl, rfl⟩]
  rfl

/-- The parameters and the body of a function. -/
lemma kidDepths_func {a g : Bool} : kidDepths l (.func a g) ks x = (ks.map (·.depths l x.body)).sum :=
  sum_kids (f := id) fun _ _ => ⟨rfl, rfl⟩

/-- A node that is not carried over and whose children are plain code. -/
lemma depths_around (h : (mk s t ks).isCarried = false)
    (hp : ∀ i kt, t.isCode i kt = true ∧ t.settingAt x i kt = x.plain) :
    (mk s t ks).depths l x = (ks.map (·.depths l x.plain)).sum :=
  (depths_of_not_carried h).trans (kidDepths_plain hp)

end Node

@[simp] lemma Setting.plain_plain : x.plain.plain = x.plain := rfl

namespace Build

variable {l : Origin} {x : Setting} {y : String} {a b e : Node}

lemma depths_plain (h : ∀ i kt, t.isCode i kt = true ∧ t.settingAt x i kt = x.plain) :
    (make t ks).depths l x = (ks.map (·.depths l x.plain)).sum :=
  depths_make.trans (kidDepths_plain h)

@[simp] lemma depths_leaf : (make t []).depths l x = 0 := depths_make

@[simp] lemma depths_ident : (ident y).depths l x = 0 := depths_leaf

@[simp] lemma depths_this : this.depths l x = 0 := depths_leaf

@[simp] lemma depths_boolLit {v : Bool} : (boolLit v).depths l x = 0 := depths_leaf

@[simp] lemma depths_nullLit : nullLit.depths l x = 0 := depths_leaf

@[simp] lemma depths_strLit : (strLit y).depths l x = 0 := depths_leaf

@[simp] lemma depths_binding : (binding y).depths l x = 0 := depths_leaf

@[simp] lemma depths_undefined : undefined.depths l x = 0 :=
  (depths_plain fun _ _ => ⟨rfl, rfl⟩).trans (by simp [natLit])

@[simp] lemma depths_paren : (paren e).depths l x = e.depths l x := by
  rw [paren, depths_make]
  simp [kidDepths, Tag.isCode, Tag.settingAt]

@[simp] lemma depths_binary {op : BinaryOp} : (binary op a b).depths l x = a.depths l x.plain + b.depths l x.plain :=
  (depths_plain fun _ _ => ⟨rfl, rfl⟩).trans (by simp)

@[simp] lemma depths_cond : (cond e a b).depths l x =
    e.depths l x.plain + (a.depths l x.plain + b.depths l x.plain) :=
  (depths_plain fun _ _ => ⟨rfl, rfl⟩).trans (by simp)

@[simp] lemma depths_access : (access a b).depths l x = a.depths l x.plain + b.depths l x.plain :=
  (depths_plain fun _ _ => ⟨rfl, rfl⟩).trans (by simp)

@[simp] lemma depths_computedKey : (computedKey e).depths l x = e.depths l x.plain :=
  (depths_plain fun _ _ => ⟨rfl, rfl⟩).trans (by simp)

@[simp] lemma depths_member : (member e y).depths l x = e.depths l x.plain := by
  unfold member
  split
  · simp
  · simp [index]

lemma depths_path (names : List String) : (path names).depths l x = 0 := by
  have hmembers : ∀ (names : List String) (o : Node), (∀ x, o.depths l x = 0) → ∀ x,
      (names.foldl member o).depths l x = 0 := by
    intro names
    induction names with
    | nil => exact fun o ho => ho
    | cons y names ih => exact fun o ho => ih _ fun x => depths_member.trans (ho _)
  cases names with
  | nil => exact depths_ident
  | cons root names => exact hmembers names _ (fun _ => depths_ident) x

@[simp] lemma depths_call :
    (call f args).depths l x = f.depths l ⟨x.depth, true⟩ + (args.map (·.depths l x.plain)).sum :=
  depths_make.trans kidDepths_call

@[simp] lemma depths_assign : (assign a b).depths l x = a.depths l x.plain + b.depths l x.plain :=
  (depths_plain fun _ _ => ⟨rfl, rfl⟩).trans (by simp)

@[simp] lemma depths_array : (array es).depths l x = (es.map (·.depths l x.plain)).sum :=
  depths_plain fun _ _ => ⟨rfl, rfl⟩

@[simp] lemma depths_object {props : List (String × Node)} :
    (object props).depths l x = (props.map (·.2.depths l x.plain)).sum := by
  have hprop : ∀ prop : String × Node, (keyValue (make (.keyName prop.1) []) prop.2).depths l x.plain =
      prop.2.depths l x.plain := by
    intro prop
    rw [keyValue, depths_around rfl fun _ _ => ⟨rfl, rfl⟩]
    simp
  rw [object, depths_plain fun _ _ => ⟨rfl, rfl⟩, map_map]
  exact congrArg sum (map_congr_left fun prop _ => hprop prop)

@[simp] lemma depths_funcExpr : (funcExpr e).depths l x = e.depths l x := by
  rw [funcExpr, depths_of_not_carried rfl]
  simp [kidDepths, Tag.isCode, Tag.settingAt]

@[simp] lemma depths_block : (block es).depths l x = (es.map (·.depths l x.plain)).sum :=
  depths_plain fun _ _ => ⟨rfl, rfl⟩

@[simp] lemma depths_params : (params es).depths l x = (es.map (·.depths l x.plain)).sum :=
  depths_plain fun _ _ => ⟨rfl, rfl⟩

@[simp] lemma depths_func {ps stmts : List Node} : (func ps stmts).depths l x =
    (ps.map (·.depths l x.body)).sum + (stmts.map (·.depths l x.body)).sum := by
  rw [func, depths_make, kidDepths_func]
  simp [Setting.plain, Setting.body]

@[simp] lemma depths_funcDecl : (funcDecl y e).depths l x = e.depths l x.plain :=
  (depths_plain fun _ _ => ⟨rfl, rfl⟩).trans (by simp)

@[simp] lemma depths_exprStmt : (exprStmt e).depths l x = e.depths l x.plain :=
  (depths_plain fun _ _ => ⟨rfl, rfl⟩).trans (by simp)

@[simp] lemma depths_returnStmt : (returnStmt e).depths l x = e.depths l x.plain :=
  (depths_plain fun _ _ => ⟨rfl, rfl⟩).trans (by simp)

@[simp] lemma depths_ifStmt : (ifStmt a b e?).depths l x =
    a.depths l x.plain + (b.depths l x.plain + (e?.toList.map (·.depths l x.plain)).sum) :=
  (depths_plain fun _ _ => ⟨rfl, rfl⟩).trans (by simp)

@[simp] lemma depths_declarator : (declarator a e?).depths l x =
    a.depths l x.plain + (e?.toList.map (·.depths l x.plain)).sum :=
  (depths_plain fun _ _ => ⟨rfl, rfl⟩).trans (by simp)

@[simp] lemma depths_var : (var es).depths l x = (es.map (·.depths l x.plain)).sum :=
  depths_plain fun _ _ => ⟨rfl, rfl⟩

@[simp] lemma depths_useStrict : useStrict.depths l x = 0 := by
  simp [useStrict]

end Build

/-! ## Lowering `super` -/

namespace SuperContext

variable {l : Origin} {x : Setting} {c : SuperContext}

/-- What a context names is written, and is no code of the source. -/
structure IsWritten (c : SuperContext) : Prop where
  parent : ∀ {l x}, c.parent.depths l x = 0
  receiver : ∀ {l x}, c.receiver.depths l x = 0
  key : superKey? c.receiver = none

lemma depths_callOn {r : Node} (hr : ∀ {x}, r.depths l x = 0) :
    (callOn f r args).depths l x = f.depths l x.plain + (args.map (·.depths l x.plain)).sum := by
  unfold callOn
  split
  · simp [hr]
    rfl
  · simp [hr]
    rfl

lemma depths_home (hp : ∀ {x}, c.parent.depths l x = 0) : (c.home key).depths l x = key.depths l x.plain := by
  unfold home
  split
  · simp [hp]
  · simp [hp]

/-- A compound assignment to a property of `super` holds its key twice. -/
lemma depths_store (hp : ∀ {x}, c.parent.depths l x = 0) (hr : ∀ {x}, c.receiver.depths l x = 0) :
    (c.store op key value).depths l x =
      (if op.binary.isSome then key.depths l x.plain + key.depths l x.plain else key.depths l x.plain) +
        value.depths l x.plain := by
  unfold store
  split
  · rename_i hop
    simp [hop, hr]
  · rename_i hop
    split
    · simp [hop, hr, depths_home hp, add_assoc]
    · simp [hop, hr, depths_home hp, add_assoc]

end SuperContext

namespace Class

/-- A compound assignment to a property of `super` whose key holds a node that comes from `l`. -/
def Copied (l : Origin) (_ : Mark) (a : Node) : Prop := ∃ s op st w key value,
  a = mk s (.assign op) [mk st (.superMember w) [key], value] ∧ op.binary.isSome = true ∧ key.Has l

section Super

variable {l : Origin} {m : Mark} {c : SuperContext}

lemma copied_assign :
    Copied l m (mk s (.assign op) [mk st (.superMember w) [key], value]) ↔ op.binary.isSome = true ∧ key.Has l := by
  constructor
  · rintro ⟨_, _, _, _, _, _, ⟨⟩, h⟩
    exact h
  · exact fun h => ⟨_, _, _, _, _, _, rfl, h⟩

/-- What is copied is an assignment. -/
lemma not_copied (h : ∀ op, t ≠ .assign op) : ¬Copied l m (mk s t ks) := by
  rintro ⟨_, op, st, w, key, value, ⟨⟩, -⟩
  exact h op rfl

/-- What is copied is rewritten as a store. -/
lemma not_copied_of_use {a : Node} (h : ∀ op key value, use a ≠ .store op key value) : ¬Copied l m a := by
  rintro ⟨s, op, st, w, key, value, rfl, -⟩
  exact h op key value rfl

lemma not_finds_leaf (ht : ∀ op, t ≠ .assign op) : ¬Finds ownParts (Copied l) m (mk s t []) := by
  rintro ⟨_, _, hr, hC⟩
  cases hr with
  | here => exact not_copied ht hC
  | step hk =>
    obtain ⟨_, ⟨⟩, -⟩ := within_of_mem_ownParts hk

/-- No code becomes a property of `super`. -/
lemma superKey?_lower (hc : c.IsWritten) (h : n.WellFormed) : superKey? (c.lower n) = none := by
  have hne : ∀ {n : Node}, (∀ w, n.tag ≠ .superMember w) → superKey? n = none := by
    intro n hn
    by_contra hne
    obtain ⟨key, hkey⟩ := Option.ne_none_iff_exists'.mp hne
    obtain ⟨s, w, rfl⟩ := superKey?_eq_some_iff.mp hkey
    exact hn w rfl
  have hshape := use_shape n
  rw [lower_eq]
  generalize hu : use n = u at hshape
  cases hshape with
  | closed =>
    refine hne fun w hw => ?_
    obtain rfl : _ = Tag.superMember w := hw
    obtain ⟨key, rfl, -⟩ := h.superMember
    cases hu
  | call | methodCall => exact hne fun w hw => absurd (tag_callOn.symm.trans hw) (by simp)
  | store => exact hne fun w => tag_store_ne (by simp) (by simp)
  | read => rfl
  | this =>
    have hkey := hc.key
    rw [receiver] at hkey
    cases hr : c.receiver? with
    | none => rfl
    | some r => rwa [hr] at hkey
  | plain =>
    refine hne fun w hw => ?_
    obtain rfl : _ = Tag.superMember w := hw
    obtain ⟨key, rfl, -⟩ := h.superMember
    cases hu

/-- A node whose children are replaced is carried over as before. -/
lemma depthHere_congr (h : (t.usageAt .read 0).isDirect = true → (ks'.head?.bind superKey?).isNone =
      (ks.head?.bind superKey?).isNone) : depthHere l (mk s t ks') x = depthHere l (mk s t ks) x := by
  have hcarried : (mk s t ks').isCarried = (mk s t ks).isCarried := by
    cases t with
    | call | assign => exact h rfl
    | funcExpr i => cases i <;> rfl
    | _ => rfl
  rw [depthHere, depthHere, hcarried]
  rfl

lemma depths_superMember : (mk s (.superMember w) [key]).depths l x = key.depths l x.plain := by
  rw [depths_around rfl fun _ _ => ⟨rfl, rfl⟩]
  simp

/-- What is no code is a name or a literal. -/
lemma eq_leaf_of_not_isCode (h : (mk s t ks).WellFormed) (hi : ks[i]? = some k) (hcode : t.isCode i k.tag = false) :
    ∃ sk tk, k = mk sk tk [] ∧ tk.role = .key := by
  have hname : ∀ {y : String}, k.tag = .keyName y → ∃ sk tk, k = mk sk tk [] ∧ tk.role = .key := by
    intro y hy
    obtain ⟨sk, tk, kks⟩ := k
    obtain rfl : tk = .keyName y := hy
    obtain rfl : kks = [] := (h.kid (mem_of_getElem? hi)).leaf rfl
    exact ⟨sk, .keyName y, rfl, rfl⟩
  unfold Tag.isCode at hcode
  split at hcode
  · obtain ⟨key, p, b, rfl, hkey, -, -⟩ := h.ctor
    obtain rfl := Option.some_inj.mp hi
    have hrole := hkey.2
    cases keyShape (hkey.ofRole rfl) with
    | name | str | num | bigInt => exact ⟨_, _, rfl, hrole⟩
    | computed => cases hrole
  · exact hname ‹_›
  · exact hname ‹_›
  · cases hcode

/-- Where a child stands depends only on the tags of keys. -/
lemma slot_congr (h : (mk s t ks).WellFormed) {k' : Node} (hi : ks[i]? = some k)
    (hkey : k.role.isKey = true → k'.tag = k.tag) (x : Setting) :
    t.isCode i k'.tag = t.isCode i k.tag ∧ t.settingAt x i k'.tag = t.settingAt x i k.tag := by
  cases t with
  | method kind isStatic =>
    obtain ⟨key, f, rfl, hk, -⟩ := h.method
    cases i with
    | zero =>
      obtain rfl := Option.some_inj.mp hi
      rw [hkey hk.2]
      exact ⟨rfl, rfl⟩
    | succ i => cases kind <;> exact ⟨rfl, rfl⟩
  | field isStatic =>
    obtain ⟨key, value, rfl, hk, -⟩ := h.field
    cases i with
    | zero =>
      obtain rfl := Option.some_inj.mp hi
      rw [hkey hk.2]
      exact ⟨rfl, rfl⟩
    | succ i => cases isStatic <;> exact ⟨rfl, rfl⟩
  | funcExpr i? => cases i? <;> exact ⟨rfl, rfl⟩
  | ctor | call | getter | setter => rcases i with _ | _ | _ | i <;> exact ⟨rfl, rfl⟩
  | _ => exact ⟨rfl, rfl⟩

/-- The children of a node grow where they stand. What is no code is a key without children. -/
lemma grows_kids {P : ℕ → Node → Prop} (h : (mk s t ks).WellFormed) (hks : Forall₂ R ks ks')
    (htag : ∀ {k k'}, k ∈ ks → R k k' → k.role.isKey = true → k'.tag = k.tag)
    (hleaf : ∀ {i s t}, t.role = .key → ¬P i (mk s t []))
    (hkid : ∀ i k k', ks[i]? = some k → R k k' → ∀ x : Setting, Grows (P i k) (k.depths l x) (k'.depths l x)) :
    Grows (∃ i k, ks[i]? = some k ∧ P i k) (kidDepths l t ks x) (kidDepths l t ks' x) := by
  refine Grows.sum_mapIdx hks fun i k k' hi hR => ?_
  obtain ⟨hcode, hsetting⟩ := slot_congr h hi (htag (mem_of_getElem? hi) hR) x
  rw [hcode, hsetting]
  split
  · exact hkid i k k' hi hR _
  · rename_i hnot
    obtain ⟨sk, tk, rfl, hkey⟩ := eq_leaf_of_not_isCode h hi (Bool.eq_false_iff.mpr hnot)
    exact (Grows.refl 0).congr (iff_of_false id (hleaf hkey))

/-- A key stays what it is. -/
lemma tag_lower_key (h : k.role.isKey = true) : (c.lower k).tag = k.tag := by
  have hshape := use_shape k
  rw [lower_eq]
  generalize use k = u at hshape
  cases hshape with
  | closed | plain => rfl
  | call | methodCall | store | read | this => cases h

/-- A node that is not rewritten counts for what it did. -/
lemma depthHere_lower (hc : c.IsWritten) (h : (mk s t ks).WellFormed) (hu : use (mk s t ks) = .plain) :
    depthHere l (mk s t (ks.map c.lower)) x = depthHere l (mk s t ks) x := by
  refine depthHere_congr fun hd => ?_
  cases ks with
  | nil => rfl
  | cons k ks =>
    have hlowered := superKey?_lower hc (h.kid (mem_cons_self ..))
    have hkey := superKey?_eq_none_of_plain h hu (m := ⟨.read, false⟩) (i := 0) rfl hd
    simp [hlowered, hkey]

/-- A class that stays has a `super` of its own. -/
lemma map_lower_of_frame (h : (mk s t ks).WellFormed) (hl : isLowered (mk s t ks) = false)
    (hu : use (mk s t ks) = .plain) (ht : isPlainTag t = false) :
    ks.map c.lower = ks ∧ ownParts m (mk s t ks) = [] := by
  cases t with
  | func | getter | setter | cls => cases hu
  | superMember w =>
    obtain ⟨key, rfl, -⟩ := h.superMember
    cases hu
  | classDecl i | classExpr i =>
    obtain ⟨cls, rfl, hcls⟩ := h.single rfl
    obtain ⟨sc, cks, rfl⟩ := eq_of_role hcls.2 rfl
    refine ⟨?_, if_neg (Bool.eq_false_iff.mp hl)⟩
    rw [map_singleton, lower_eq]
    rfl
  | _ => cases ht

/-- A node that is not rewritten grows with its children. -/
lemma grows_plain (hc : c.IsWritten) (h : (mk s t ks).WellFormed) (hl : isLowered (mk s t ks) = false)
    (hu : use (mk s t ks) = .plain)
    (hkid : ∀ k ∈ ks, ∀ {m : Mark}, (m.usage.isDirect = false ∨ superKey? k = none) →
      ∀ x : Setting, Grows (Finds ownParts (Copied l) m k) (k.depths l x) ((c.lower k).depths l x)) :
    Grows (Finds ownParts (Copied l) m (mk s t ks)) ((mk s t ks).depths l x)
      ((mk s t (ks.map c.lower)).depths l x) := by
  have hnot : ¬Copied l m (mk s t ks) := not_copied_of_use (by simp [hu])
  rw [depths_mk, depths_mk, depthHere_lower hc h hu]
  cases ht : isPlainTag t with
  | true =>
    have hkids : Grows (∃ i k, ks[i]? = some k ∧ Finds ownParts (Copied l) (markAt m t i) k)
        (kidDepths l t ks x) (kidDepths l t (ks.map c.lower) x) := by
      refine grows_kids (R := fun k k' => k' = c.lower k) h
        (forall₂_map_right_iff.mpr (forall₂_same.mpr fun k _ => rfl)) ?_ ?_ ?_
      · rintro k _ - rfl hkey
        exact tag_lower_key hkey
      · rintro i s t hkey
        exact not_finds_leaf fun op ht => by cases ht ▸ hkey
      · rintro i k _ hi rfl
        exact hkid k (mem_of_getElem? hi)
          ((ownParts_of_plain c h hl hu m).2 _ ((mem_ownParts_iff ht).mpr ⟨i, hi, rfl⟩)).2
    refine ((Grows.refl _).add hkids).congr ?_
    rw [false_or, finds_mk ht, or_iff_right hnot]
  | false =>
    obtain ⟨hsame, hparts⟩ := map_lower_of_frame (c := c) (m := m) h hl hu ht
    rw [hsame, finds_iff, hparts, or_iff_right hnot]
    exact (Grows.refl _).congr (by simp)

/-- The arguments of a call grow one by one. -/
lemma grows_args (hargs : ∀ k ∈ args, ∀ x : Setting,
      Grows (Finds ownParts (Copied l) m.reading k) (k.depths l x) ((c.lower k).depths l x)) :
    Grows (∃ k ∈ args, Finds ownParts (Copied l) m.reading k) (args.map (·.depths l x.plain)).sum
      ((args.map c.lower).map (·.depths l x.plain)).sum := by
  rw [map_map]
  refine Grows.sum_map (R := Eq) (forall₂_same.mpr fun k _ => rfl) ?_
  rintro k hk _ rfl
  exact hargs k hk x.plain

/-- A store grows with its key and its value, and its key is repeated if it is a compound one. -/
lemma grows_store (hc : c.IsWritten)
    (hkey : Grows (Finds ownParts (Copied l) m.reading key) (key.depths l x.plain) ((c.lower key).depths l x.plain))
    (hvalue : Grows (Finds ownParts (Copied l) m.reading value) (value.depths l x.plain) ((c.lower value).depths l x.plain)) :
    Grows (Finds ownParts (Copied l) m (mk s (.assign op) [mk st (.superMember w) [key], value]))
      ((mk s (.assign op) [mk st (.superMember w) [key], value]).depths l x)
      ((c.store op (c.lower key) (c.lower value)).depths l x) := by
  have hfinds : Finds ownParts (Copied l) m (mk s (.assign op) [mk st (.superMember w) [key], value]) ↔
      (op.binary.isSome = true ∧ key.Has l) ∨ Finds ownParts (Copied l) m.reading key ∨
        Finds ownParts (Copied l) m.reading value := by
    rw [finds_assign, copied_assign, finds_superMember, or_iff_right (not_copied (by simp))]
    simp [Mark.reading]
  have hdepths : (mk s (.assign op) [mk st (.superMember w) [key], value]).depths l x =
      key.depths l x.plain + value.depths l x.plain := by
    rw [depths_around rfl fun _ _ => ⟨rfl, rfl⟩]
    simp [depths_superMember]
  rw [hdepths, depths_store hc.parent hc.receiver, hfinds]
  split
  · rename_i hop
    refine (hkey.twice.add hvalue).congr ?_
    rw [depths_ne_zero_iff]
    simp only [hop, true_and]
    tauto
  · rename_i hop
    refine (hkey.add hvalue).congr ?_
    simp only [hop, false_and, false_or, Bool.false_eq_true]

lemma stepwise_grows (hc : c.IsWritten) : Stepwise c fun m n n' => ∀ x : Setting,
    Grows (Finds ownParts (Copied l) m n) (n.depths l x) (n'.depths l x) where
  closed hu x := by
    refine (Grows.refl _).congr (iff_of_false id ?_)
    rw [finds_iff, (ownParts_of_closed hu).1]
    rintro (hC | ⟨x, hx, -⟩)
    · exact not_copied_of_use (by simp [hu]) hC
    · cases hx
  call {m s w args} hargs x := by
    rw [depths_around rfl fun _ _ => ⟨rfl, rfl⟩, depths_callOn hc.receiver, hc.parent, zero_add]
    refine (grows_args hargs).congr ?_
    rw [finds_reading rfl rfl fun _ => rfl, or_iff_right (not_copied (t := .superCall w) (by simp))]
  methodCall {m s sc w key args} hargs x := by
    rw [depths_of_not_carried rfl, kidDepths_call, depths_superMember,
      depths_callOn hc.receiver, depths_home hc.parent]
    refine ((Grows.refl _).add (grows_args hargs)).congr ?_
    rw [finds_call, or_iff_right (not_copied (t := .call) (by simp)), finds_superMember,
      or_iff_right (not_copied (t := .superMember w) (by simp))]
    simp
  store hkey hvalue x := grows_store hc (hkey x.plain) (hvalue x.plain)
  read {m s w key} hd hkey x := by
    rw [depths_superMember, depths_home hc.parent, finds_superMember,
      or_iff_right (not_copied (t := .superMember w) (by simp))]
    refine (hkey x.plain).congr (and_iff_right ?_).symm
    intro hcallee
    rw [hcallee] at hd
    cases hd
  this {m s} x := by
    have hthis : ∀ {x : Setting}, (mk s .this []).depths l x = 0 := depths_of_not_carried rfl
    have hlowered : (c.receiver?.getD (mk s .this [])).depths l x = 0 := by
      have hr := hc.receiver (l := l) (x := x)
      rw [receiver] at hr
      cases hrec : c.receiver? with
      | none => exact hthis
      | some r => rwa [hrec] at hr
    rw [hthis, hlowered]
    exact (Grows.refl 0).congr (iff_of_false id (not_finds_leaf (by simp)))
  plain h hl hu hkid _ := grows_plain hc h hl hu hkid

/-- **Lowering `super` repeats the keys of compound assignments**, and nothing else. -/
theorem grows_lower (hc : c.IsWritten) (h : n.WellFormed) (hno : n.any isLowered = false)
    (hm : m.usage.isDirect = false ∨ superKey? n = none) :
    Grows (Finds ownParts (Copied l) m n) (n.depths l x) ((c.lower n).depths l x) :=
  (stepwise_grows hc).lower h hno hm x

end Super

end Class

end EcmaLower
