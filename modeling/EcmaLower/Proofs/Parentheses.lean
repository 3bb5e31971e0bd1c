import EcmaLower.Proofs.ClassPass
import EcmaLower.Proofs.Precedence

/-!
# Parentheses around classes

A class is a primary expression, and the call in its place is not. This module shows that the call can
stand wherever the class can, except behind `new`, and that nothing else that the lowering of classes writes
needs parentheses it does not have.

## Main results

* `SuperContext.improves_lower`, `SuperContext.seated_lower` — `super` is replaced by
  what its positions admit.
* `Class.seated_build` — the call that builds a class needs no parentheses inside.
* `Class.parenSafe_lowerScript_iff` — which scripts stay safe.
-/

namespace EcmaLower

open Node List Build SuperContext Option

variable {s st w : Span} {t : Tag} {ks ks' : List Node} {op : AssignOp} {isStatic : Bool} {cls f k m n : Node}
  {p : Position} {name parentName x : String}

/-! ## Generated code -/

lemma forall_mem_pair {P : Node → Prop} {a b : Node} : (∀ k ∈ [a, b], P k) ↔ P a ∧ P b := by simp

lemma seated_pair {a b : Node} : Seated (mk s t [a, b]) ↔ Stands (t.position 0) a ∧ Stands (t.position 1) b := by
  rw [seated_mk]
  simp

/-- An expression that can stand at almost any position. -/
def Plain (n : Node) : Prop := n.face = {} ∧ Seated n

lemma Plain.stands (h : Plain n) (hp : p ≠ .chained false) : Stands p n := by
  refine ⟨?_, h.2⟩
  rw [h.1]
  cases p with
  | left op | right op => cases op <;> rfl
  | chained optional =>
    cases optional with
    | false => exact absurd rfl hp
    | true => rfl
  | _ => rfl

lemma Plain.argument (h : Plain n) : Stands .assignment n := h.stands (by simp)

lemma stands_free : Stands .free n ↔ Seated n := ⟨fun h => h.2, fun h => ⟨rfl, h⟩⟩

/-- Only commas keep an expression from being an argument. -/
lemma stands_assignment : Stands .assignment n ↔ n.face.level ≠ .sequence ∧ Seated n := by
  refine and_congr_left' ?_
  change decide (Level.assignment.rank ≤ n.face.level.rank) = true ↔ _
  cases n.face.level <;> simp [Level.rank]

section Builders

variable {a b e f key obj : Node} {ks : List Node}

lemma seated_leaf : Seated (mk s t []) := seated_mk.mpr (by simp)

/-- A node in whose brackets anything can stand. -/
lemma seated_free (ht : ∀ i, t.position i = .free) : Seated (mk s t ks) ↔ ∀ k ∈ ks, Seated k := by
  rw [seated_mk_of_position ht]
  simp only [stands_free]

lemma plain_ident : Plain (ident x) := ⟨rfl, seated_leaf⟩

lemma plain_this : Plain this := ⟨rfl, seated_leaf⟩

lemma plain_nullLit : Plain nullLit := ⟨rfl, seated_leaf⟩

lemma plain_boolLit {v : Bool} : Plain (boolLit v) := ⟨rfl, seated_leaf⟩

lemma plain_strLit : Plain (strLit x) := ⟨rfl, seated_leaf⟩

lemma face_paren : (paren e).face = {} := by
  rw [paren, make, face_mk]
  rfl

lemma plain_paren (h : Seated e) : Plain (paren e) :=
  ⟨face_paren, (seated_free fun _ => rfl).mpr (forall_mem_singleton.mpr h)⟩

lemma face_access (h : obj.face = {}) : (access obj key).face = {} := by
  rw [access, make, face_mk]
  simp [Tag.face, Tag.level, Tag.startsWithFirst, Tag.writesIn, Tag.isOpen, h]

lemma plain_access (h : Plain obj) (hk : Seated key) : Plain (access obj key) := by
  refine ⟨face_access h.1, seated_pair.mpr ⟨h.stands (by simp [Tag.position]), stands_free.mpr hk⟩⟩

lemma seated_computedKey : Seated (computedKey e) ↔ Seated e :=
  (seated_free fun i => by cases i <;> rfl).trans forall_mem_singleton

lemma face_member (h : obj.face = {}) (name : String) : (member obj name).face = {} := by
  unfold member
  split <;> exact face_access h

lemma plain_member (h : Plain obj) (name : String) : Plain (member obj name) := by
  unfold member
  split
  · exact plain_access h seated_leaf
  · exact plain_access h (seated_computedKey.mpr plain_strLit.2)

lemma plain_path (names : List String) : Plain (path names) := by
  have hfold : ∀ (ns : List String) (e : Node), Plain e → Plain (ns.foldl member e) := by
    intro ns
    induction ns with
    | nil => exact fun e h => h
    | cons n ns ih => exact fun e h => ih _ (plain_member h n)
  cases names with
  | nil => exact plain_ident
  | cons root ns => exact hfold ns _ plain_ident

lemma stands_undefined : Stands .assignment undefined := by
  refine ⟨rfl, (seated_mk_of_position (p := .operand) fun _ => rfl).mpr ?_⟩
  exact forall_mem_singleton.mpr ⟨rfl, seated_leaf⟩

lemma seated_array : Seated (array ks) ↔ ∀ k ∈ ks, Stands .assignment k := seated_mk_of_position fun _ => rfl

lemma seated_call : Seated (mk s .call (f :: ks)) ↔ Stands .base f ∧ ∀ k ∈ ks, Stands .assignment k := by
  rw [seated_mk, zipIdx_cons, forall_mem_cons, ← forall_mem_zipIdx (i := 0 + 1)]
  refine and_congr_right' (forall₂_congr fun x hx => ?_)
  obtain ⟨i, hi⟩ : ∃ i, x.2 = i + 1 := Nat.exists_eq_add_of_le' (le_snd_of_mem_zipIdx hx)
  rw [hi]
  rfl

lemma face_call : (call f ks).face = { level := .call, start := f.face.start } := by
  rw [call, make, face_mk]
  simp [Tag.face, Tag.level, Tag.startsWithFirst, Tag.writesIn, Tag.isOpen]

lemma seated_assign : Seated (mk s (.assign op) [a, b]) ↔ Stands .leftHand a ∧ Stands .assignment b := seated_pair

lemma face_assign : (assign a b).face = { level := .assignment, start := a.face.start, hasIn := b.face.hasIn } := by
  rw [assign, make, face_mk]
  simp [Tag.face, Tag.level, Tag.startsWithFirst, Tag.writesIn, Tag.isOpen]

lemma seated_binary {op : BinaryOp} (ha : Plain a) (hb : Plain b) : Seated (binary op a b) :=
  seated_pair.mpr ⟨ha.stands (by simp [Tag.position]), hb.stands (by simp [Tag.position])⟩

lemma face_binary {op : BinaryOp} (ha : a.face = {}) (hb : b.face = {}) :
    (binary op a b).face = { level := .binary op, hasIn := op == .isIn } := by
  rw [binary, make, face_mk]
  cases op <;> simp [Tag.face, Tag.level, Tag.startsWithFirst, Tag.writesIn, Tag.isOpen, ha, hb]

lemma seated_exprStmt : Seated (exprStmt e) ↔ Stands .statement e :=
  (seated_mk_of_position fun _ => rfl).trans forall_mem_singleton

/-- A store at the start of a statement. -/
lemma seated_store (ha : Plain a) (hb : Stands .assignment b) : Seated (exprStmt (assign a b)) := by
  refine seated_exprStmt.mpr ⟨?_, seated_assign.mpr ⟨ha.stands (by simp), hb⟩⟩
  rw [face_assign, ha.1]
  rfl

end Builders

/-! ## Members -/

namespace SuperContext

/-- A context of names. -/
structure IsPlain (c : SuperContext) : Prop where
  parent : Plain c.parent
  receiver : ∀ r ∈ c.receiver?, Plain r

variable {c : SuperContext}

lemma IsPlain.plain_receiver (hc : c.IsPlain) : Plain c.receiver := by
  rw [SuperContext.receiver]
  cases hr : c.receiver? with
  | none => exact plain_this
  | some r => exact hc.receiver r hr

lemma IsPlain.face_home (hc : c.IsPlain) (key : Node) : (c.home key).face = {} := by
  refine face_access ?_
  split
  · exact hc.parent.1
  · exact face_member hc.parent.1 _

lemma IsPlain.plain_home (hc : c.IsPlain) {key : Node} (hk : Seated key) : Plain (c.home key) := by
  refine plain_access ?_ hk
  split
  · exact hc.parent
  · exact plain_member hc.parent _

lemma face_callOn {receiver : Node} (hf : f.face = {}) (args : List Node) :
    (callOn f receiver args).face = { level := .call } := by
  unfold callOn
  split <;> rw [face_call, face_member hf]

lemma seated_callOn {receiver : Node} {args : List Node} (hf : Plain f) (hr : Plain receiver)
    (ha : ∀ k ∈ args, Stands .assignment k) : Seated (callOn f receiver args) := by
  unfold callOn
  split
  · refine seated_call.mpr ⟨(plain_member hf _).stands (by simp), ?_⟩
    refine forall_mem_pair.mpr ⟨hr.argument, ?_, seated_array.mpr ha⟩
    rw [array, make, face_mk]
    rfl
  · refine seated_call.mpr ⟨(plain_member hf _).stands (by simp), ?_⟩
    exact forall_mem_cons.mpr ⟨hr.stands (by simp), ha⟩

lemma face_superMember : (Node.mk s (.superMember w) ks).face = {} := by
  rw [face_mk]
  simp [Tag.face, Tag.level, Tag.startsWithFirst, Tag.ownStart, Tag.writesIn, Tag.isOpen]

lemma face_assign_super {key value : Node} :
    (Node.mk s (.assign op) [Node.mk st (.superMember w) [key], value]).face =
      { level := .assignment, hasIn := op.binary == some .isIn || value.face.hasIn } := by
  have hop : (Tag.assign op).writesIn = (op.binary == some .isIn) := by
    cases op with
    | plain => rfl
    | compound op => cases op <;> rfl
  rw [face_mk, Tag.face, hop]
  simp [Tag.level, Tag.startsWithFirst, Tag.isOpen, face_superMember]

/-- A store through `super` stays an assignment, or becomes an operation. -/
lemma IsPlain.improves_store (hc : c.IsPlain) {key key' value value' : Node}
    (hv : value.face.Improves false value'.face) :
    (Node.mk s (.assign op) [Node.mk st (.superMember w) [key], value]).face.Improves false
      (c.store op key' value').face := by
  have htarget : (access c.receiver key').face = {} := face_access hc.plain_receiver.1
  rw [face_assign_super]
  unfold store
  split
  · rw [face_assign, htarget]
    exact ⟨.inl rfl, .inl rfl, fun h => by simp [hv.hasIn h]⟩
  · rename_i op' hop
    split
    · rename_i hshort
      rw [face_binary (hc.face_home _) face_paren, hop]
      exact ⟨.inr ⟨rfl, op', rfl⟩, .inl rfl, fun h => by simp_all⟩
    · rw [face_assign, htarget, face_binary (hc.face_home _) face_paren, hop]
      exact ⟨.inl rfl, .inl rfl, fun h => by simp_all⟩

/-- **`super` is replaced by what its positions admit.** -/
theorem improves_lower (hc : c.IsPlain) (n : Node) : n.face.Improves false (c.lower n).face := by
  induction n using induct_within with
  | h s t ks ih =>
    have hplain : (Node.mk s t ks).face.Improves false (Node.mk s t (ks.map c.lower)).face := by
      have hnone : (t.isSubscript && ks.head?.any fun _ => false) = false := by simp
      rw [← hnone]
      exact improves_mk (forall₂_map_right_iff.mpr (forall₂_same.mpr fun k hk => ih k hk k .refl))
    have hshape := use_shape (Node.mk s t ks)
    rw [lower_eq]
    generalize use (Node.mk s t ks) = u at hshape
    cases hshape with
    | closed => exact .refl _
    | call =>
      rw [face_callOn hc.parent.1, face_mk]
      exact ⟨.inl rfl, .inl rfl, fun h => by cases h⟩
    | methodCall =>
      rw [face_callOn (hc.face_home _), face_mk, map_cons, face_superMember]
      exact ⟨.inl rfl, .inl rfl, fun h => by cases h⟩
    | store => exact hc.improves_store (ih _ (by simp) _ .refl)
    | read =>
      rw [face_superMember, hc.face_home]
      exact .refl _
    | this =>
      cases hr : c.receiver? with
      | none => exact hplain
      | some r =>
        have hface : (Node.mk s .this ks).face = {} := by
          rw [face_mk]
          simp [Tag.face, Tag.level, Tag.startsWithFirst, Tag.ownStart, Tag.writesIn, Tag.isOpen]
        rw [hface, getD_some, (hc.receiver r hr).1]
        exact .refl _
    | plain => exact hplain

lemma IsPlain.seated_store (hc : c.IsPlain) {key value : Node} (hk : Seated key)
    (hv : Stands .assignment value) : Seated (c.store op key value) := by
  have htarget : Stands .leftHand (access c.receiver key) := (plain_access hc.plain_receiver hk).stands (by simp)
  unfold store
  split
  · exact seated_assign.mpr ⟨htarget, hv⟩
  · split
    · exact seated_binary (hc.plain_home hk) (plain_paren (seated_assign.mpr ⟨htarget, hv⟩))
    · rename_i op' _ _
      refine seated_assign.mpr ⟨htarget, ?_, seated_binary (hc.plain_home hk) (plain_paren hv.2)⟩
      rw [face_binary (hc.face_home _) face_paren]
      cases op' <;> rfl

/-- **Lowering `super` needs no parentheses.** -/
theorem seated_lower (hc : c.IsPlain) (n : Node) (hn : Seated n) : Seated (c.lower n) := by
  induction n using induct_within with
  | h s t ks ih =>
    have hplain : Seated (Node.mk s t (ks.map c.lower)) :=
      seated_of_forall₂ (forall₂_map_right_iff.mpr (forall₂_same.mpr
        fun k hk => ⟨improves_lower hc k, ih k hk k .refl⟩)) hn
    have hargs : ∀ {p : Position} {args : List Node}, (∀ k ∈ args, k ∈ ks ∧ Stands p k) →
        ∀ k ∈ args.map c.lower, Stands p k := by
      intro p args h
      refine forall_mem_map.mpr fun k hk => ?_
      exact (h k hk).2.of_improves (improves_lower hc k) (ih k (h k hk).1 k .refl)
    have hshape := use_shape (Node.mk s t ks)
    rw [lower_eq]
    generalize use (Node.mk s t ks) = u at hshape
    cases hshape with
    | closed => exact hn
    | call =>
      exact seated_callOn hc.parent hc.plain_receiver
        (hargs fun k hk => ⟨hk, (seated_mk_of_position fun _ => rfl).mp hn k hk⟩)
    | methodCall =>
      obtain ⟨hcallee, hstands⟩ := seated_call.mp hn
      exact seated_callOn (hc.plain_home (hcallee.2.kid (by simp))) hc.plain_receiver
        (hargs fun k hk => ⟨by simp [hk], hstands k hk⟩)
    | @store _ op st w key value =>
      obtain ⟨htarget, hvalue⟩ := seated_assign.mp hn
      refine hc.seated_store (ih (Node.mk st (.superMember w) [key]) (by simp) key (.kid (by simp) .refl)
        (htarget.2.kid (by simp))) ?_
      exact hvalue.of_improves (improves_lower hc value) (ih value (by simp) value .refl)
    | read => exact (hc.plain_home (ih _ (by simp) _ .refl (hn.kid (by simp)))).2
    | this =>
      cases hr : c.receiver? with
      | none => exact hplain
      | some r => exact (hc.receiver r hr).2
    | plain => exact hplain

end SuperContext

namespace Class

lemma isPlain_context (parent : String) (isStatic : Bool) (receiver? : Option String) :
    IsPlain ⟨ident parent, isStatic, receiver?.map ident⟩ where
  parent := plain_ident
  receiver r hr := by
    obtain ⟨x, -, rfl⟩ := map_eq_some_iff.mp hr
    exact plain_ident

/-- The code of a member stands where it stood. -/
lemma stands_lower (parent : String) (isStatic : Bool) (receiver? : Option String) (h : Stands p n) :
    Stands p (SuperContext.lower ⟨Build.ident parent, isStatic, receiver?.map Build.ident⟩ n) :=
  h.of_improves (SuperContext.improves_lower (isPlain_context ..) n)
    (SuperContext.seated_lower (isPlain_context ..) n)

lemma seated_keyAsMember (hk : k.OfRole Role.isPublicKey) (h : Seated k) : Seated (keyAsMember k) := by
  cases keyShape hk with
  | name | computed => exact h
  | str | num | bigInt => exact seated_computedKey.mpr seated_leaf

/-- A key in brackets has no commas, and can be an argument. -/
lemma stands_keyAsExpr (hk : k.OfRole Role.isPublicKey) (h : Stands .assignment k) :
    Stands .assignment (keyAsExpr k) := by
  cases keyShape hk with
  | name => exact plain_strLit.stands (by simp)
  | str | num | bigInt => exact ⟨rfl, seated_leaf⟩
  | computed =>
    refine stands_assignment.mpr ⟨fun hseq => ?_, h.2.kid (mem_singleton_self _)⟩
    refine (stands_assignment.mp h).1 ?_
    rw [face_mk]
    exact if_pos hseq

lemma stands_fieldParts (hm : MemberShape (mk s (.field isStatic) ks)) (h : Seated (mk s (.field isStatic) ks)) :
    Seated (keyAsMember (fieldParts (mk s (.field isStatic) ks)).1) ∧
      Stands .assignment (fieldParts (mk s (.field isStatic) ks)).2 := by
  have hks := (seated_mk_of_position fun _ => rfl).mp h
  cases hm with
  | @field _ _ k hk => exact ⟨seated_keyAsMember hk (hks k (by simp)).2, stands_undefined⟩
  | @fieldInit _ _ k v hk hv => exact ⟨seated_keyAsMember hk (hks k (by simp)).2, hks v (by simp)⟩

lemma stands_funcExpr (h : Seated f) : Stands .assignment (funcExpr f) := by
  refine ⟨?_, (seated_free fun _ => rfl).mpr (forall_mem_singleton.mpr h)⟩
  rw [funcExpr, face_mk]
  rfl

lemma stands_object {props : List (String × Node)} (h : ∀ kv ∈ props, Stands .assignment kv.2) :
    Stands .assignment (object props) := by
  refine ⟨?_, (seated_free fun _ => rfl).mpr (forall_mem_map.mpr fun kv hkv => ?_)⟩
  · rw [object, make, face_mk]
    rfl
  · refine (seated_mk_of_position fun _ => rfl).mpr ?_
    exact forall_mem_cons.mpr ⟨⟨rfl, seated_leaf⟩, forall_mem_singleton.mpr (h kv hkv)⟩

/-- A call of a path at the start of a statement. -/
lemma seated_callStmt {args : List Node} (hf : Plain f) (ha : ∀ k ∈ args, Stands .assignment k) :
    Seated (exprStmt (call f args)) := by
  refine seated_exprStmt.mpr ⟨?_, seated_call.mpr ⟨hf.stands (by simp), ha⟩⟩
  rw [face_call, hf.1]
  rfl

lemma seated_defineMethod (hm : MemberShape m) (hrole : m.role = .method) (h : Seated m) :
    Seated (defineMethod name (Build.ident parentName) m) := by
  cases hm with
  | @method s sf kind isStatic a g k ps b hk hps hb =>
    have hks := (seated_mk_of_position fun _ => rfl).mp h
    have hkey := hks k (by simp)
    have hfunc : Stands .assignment (Build.funcExpr (mk sf (.func a g)
        ([ps, b].map (SuperContext.lower { parent := Build.ident parentName, isStatic })))) := by
      refine stands_funcExpr ((seated_free fun _ => rfl).mpr (List.forall_mem_map.mpr fun n hn => ?_))
      exact (stands_lower parentName isStatic none (stands_free.mpr
        ((hks (mk sf (.func a g) [ps, b]) (by simp)).2.kid hn))).2
    have htarget : Plain (if isStatic then Build.ident name
        else Build.member (Build.ident name) "prototype") := by
      split
      · exact plain_ident
      · exact plain_member plain_ident _
    cases kind with
    | method => exact seated_store (plain_access htarget (seated_keyAsMember hk hkey.2)) hfunc
    | getter | setter =>
      refine seated_callStmt (plain_path _) (forall_mem_cons.mpr ⟨htarget.argument, forall_mem_pair.mpr
        ⟨stands_keyAsExpr hk hkey, stands_object (forall_mem_cons.mpr ⟨hfunc, ?_⟩)⟩⟩)
      exact forall_mem_singleton.mpr plain_boolLit.argument
  | ctor | field | fieldInit | empty => cases hrole

lemma seated_defineStatic (hk : Seated (keyAsMember (fieldParts m).1)) (hv : Stands .assignment (fieldParts m).2) :
    Seated (defineStatic name (ident parentName) m) :=
  seated_store (plain_access plain_ident hk) (stands_lower parentName true (some name) hv)

lemma seated_ifStmt {test a : Node} {b? : Option Node} (ht : Seated test) (ha : Seated a)
    (hb : ∀ b ∈ b?, Seated b) : Seated (ifStmt test a b?) := by
  refine (seated_free fun _ => rfl).mpr ?_
  simp only [forall_mem_cons, mem_toList]
  exact ⟨ht, ha, hb⟩

/-- The statements that link a class to its parent. -/
lemma seated_inherit (name parentName : String) : ∀ k ∈ inherit name parentName, Seated k := by
  have hlink : Seated (Build.exprStmt (Build.call (Build.path ["Object", "setPrototypeOf"])
      [Build.ident name, Build.ident parentName])) :=
    seated_callStmt (plain_path _) (forall_mem_pair.mpr ⟨plain_ident.argument, plain_ident.argument⟩)
  have hproto : Seated (Build.exprStmt (Build.assign (Build.member (Build.ident name) "__proto__")
      (Build.ident parentName))) := seated_store (plain_member plain_ident _) plain_ident.argument
  refine forall_mem_pair.mpr ⟨?_, ?_⟩
  · refine seated_ifStmt (seated_binary plain_ident plain_nullLit) ?_ (by simp)
    refine (seated_free fun _ => rfl).mpr (forall_mem_singleton.mpr ?_)
    exact seated_ifStmt (plain_path _).2 hlink (by simpa using hproto)
  · have htest : Stands .test (Build.binary .strictEq (Build.ident parentName) Build.nullLit) := by
      refine ⟨?_, seated_binary plain_ident plain_nullLit⟩
      rw [face_binary plain_ident.1 plain_nullLit.1]
      rfl
    have hcond : Stands .assignment (Build.cond (Build.binary .strictEq (Build.ident parentName) Build.nullLit)
        Build.nullLit (Build.member (Build.ident parentName) "prototype")) := by
      refine stands_assignment.mpr ⟨?_, seated_mk.mpr ?_⟩
      · rw [Build.cond, Build.make, face_mk]
        simp [Tag.face, Tag.level]
      · simpa using ⟨htest, plain_nullLit.argument, (plain_member plain_ident _).argument⟩
    have hdescriptor : ∀ kv ∈ [("value", Build.ident name), ("enumerable", Build.boolLit false),
        ("writable", Build.boolLit true), ("configurable", Build.boolLit true)], Stands .assignment kv.2 := by
      simp [plain_ident.argument, plain_boolLit.argument]
    refine seated_store (plain_member plain_ident _) (stands_assignment.mpr ⟨by simp [face_call], ?_⟩)
    refine seated_call.mpr ⟨(plain_path _).stands (by simp), forall_mem_pair.mpr ⟨hcond, ?_⟩⟩
    exact stands_object (forall_mem_singleton.mpr (stands_object hdescriptor))

section Build

variable {ms : List Node} (hms : ∀ m ∈ ms, MemberShape m) (h : ∀ m ∈ ms, Seated m)
include hms h

lemma seated_fieldParts (hm : m ∈ ms.filter (·.tag == .field isStatic)) :
    Seated (keyAsMember (fieldParts m).1) ∧ Stands .assignment (fieldParts m).2 := by
  obtain ⟨hm, htag⟩ := mem_filter.mp hm
  obtain ⟨s, t, ks⟩ := m
  obtain rfl : t = .field isStatic := beq_iff_eq.mp htag
  exact stands_fieldParts (hms _ hm) (h _ hm)

lemma seated_constructor (parentName : String) (derived : Bool) :
    Seated (constructor (ident parentName) derived (Parts.ofMembers ms)) := by
  have hinits : ∀ k ∈ (Parts.ofMembers ms).fields.map (initField this), Seated k := by
    refine forall_mem_map.mpr fun m hm => ?_
    obtain ⟨hk, hv⟩ := seated_fieldParts hms h hm
    exact seated_store (plain_access plain_this hk) hv
  have hparts : Seated (constructorParts (ident parentName) derived (Parts.ofMembers ms)).1 ∧
      ∀ k ∈ (constructorParts (ident parentName) derived (Parts.ofMembers ms)).2, Seated k := by
    rcases ctor?_cases hms with ⟨-, hnone⟩ | ⟨s, sb, key, ps, stmts, hsome, hmem, -, -⟩
    · simp only [constructorParts, hnone]
      refine ⟨seated_leaf, fun k hk => ?_⟩
      rcases mem_append.mp hk with hk | hk
      · split at hk
        · rw [mem_singleton.mp hk]
          exact seated_callStmt (plain_member plain_ident _)
            (forall_mem_pair.mpr ⟨plain_this.argument, plain_ident.argument⟩)
        · cases hk
      · exact hinits k hk
    · simp only [constructorParts, hsome]
      refine ⟨(h _ hmem).kid (by simp), fun k hk => ?_⟩
      rcases mem_insertAt.mp hk with hk | hk
      · exact hinits k hk
      · exact ((h _ hmem).kid (k := mk sb .block stmts) (by simp)).kid hk
  have hlower : ∀ n, Seated n → Seated ((instanceContext (ident parentName)).lower n) :=
    seated_lower (isPlain_context parentName false none)
  refine (seated_free fun _ => rfl).mpr (forall_mem_pair.mpr ?_)
  refine ⟨hlower _ hparts.1, (seated_free fun _ => rfl).mpr (forall_mem_map.mpr fun k hk => ?_)⟩
  exact hlower k (hparts.2 k hk)

lemma seated_maker (name : String) (parent? : Option String) : Seated (maker name parent? ms) := by
  refine (seated_free fun _ => rfl).mpr (forall_mem_pair.mpr ?_)
  refine ⟨(seated_free fun _ => rfl).mpr fun k hk => ?_, (seated_free fun _ => rfl).mpr fun k hk => ?_⟩
  · obtain ⟨x, -, rfl⟩ := map_eq_some_iff.mp (mem_toList.mp hk)
    exact seated_leaf
  · simp only [mem_append, mem_cons, not_mem_nil, or_false, List.mem_map] at hk
    rcases hk with ((((rfl | rfl) | hk) | ⟨m, hmem, rfl⟩) | ⟨m, hmem, rfl⟩) | rfl
    · exact seated_exprStmt.mpr (plain_strLit.stands (by simp))
    · exact (seated_free fun _ => rfl).mpr (forall_mem_singleton.mpr (seated_constructor hms h _ _))
    · cases parent? with
      | none => cases hk
      | some parentName => exact seated_inherit name parentName k hk
    · obtain ⟨hmem, htag⟩ := mem_filter.mp hmem
      obtain ⟨sm, tm, km⟩ := m
      refine seated_defineMethod (hms _ hmem) ?_ (h _ hmem)
      cases tm <;> first | rfl | cases htag
    · obtain ⟨hk, hv⟩ := seated_fieldParts hms h hmem
      exact seated_defineStatic hk hv
    · exact (seated_free fun _ => rfl).mpr (forall_mem_singleton.mpr plain_ident.2)

end Build

/-- **The call that builds a class needs no parentheses inside.** -/
theorem seated_build (h : cls.Is .cls) (hl : isLowerable cls = true) (hs : Seated cls) (name : String)
    (parent? : Option String) : Seated (build name parent? cls) := by
  obtain ⟨s, sm, ms, hs', rfl, hm, -, -⟩ := cls_shape h
  have hms := memberShapes h hl
  have hparts := (seated_mk_of_position fun _ => rfl).mp hs
  have hmembers : ∀ m ∈ ms, Seated m := fun m hmem =>
    (hparts (mk sm .members ms) (by simp)).2.kid hmem
  have hmaker := (stands_funcExpr (seated_maker hms hmembers name parent?)).2
  refine seated_call.mpr ⟨(plain_paren hmaker).stands (by simp), fun k hk => ?_⟩
  have hheritage := hparts k (mem_cons_of_mem _ (mem_of_mem_head? (mem_toList.mp hk)))
  refine stands_assignment.mpr ⟨fun hseq => ?_, hheritage.2⟩
  have hleft := hheritage.1
  rw [Position.seats_eq (by simp), Position.admits, hseq] at hleft
  cases hleft

/-! ## Operands of `new` -/

/-- Whether an operand starts with a class that is lowered: it is the class, or a property or a template
behind one. -/
def startsWithLowered (n : Node) : Bool := n.fold fun _ t ks =>
  match t, ks with
  | .classExpr _, [(cls, _)] => isLowerable cls
  | .member, (_, r) :: _ | .tagged .., (_, r) :: _ => r
  | _, _ => false

/-- A node that is not lowered starts with a class if its operand does. -/
lemma startsWithLowered_mk (h : isLowered (mk s t ks) = false) :
    startsWithLowered (mk s t ks) = (t.isSubscript && ks.head?.any startsWithLowered) := by
  rw [startsWithLowered, fold_mk]
  cases t with
  | classExpr i? =>
    rcases ks with _ | ⟨cls, _ | ⟨_, _⟩⟩
    · rfl
    · exact h
    · rfl
  | member | tagged => cases ks <;> rfl
  | _ => rfl

/-- Whether a node is a `new` whose operand starts with a class that is lowered. -/
def constructsLowered : Node → Bool
  | .mk _ (.new _) (callee :: _) => startsWithLowered callee
  | _ => false

instance : Foreign refusesOperand where
  core s t ks ht := by
    cases t <;> first | rfl | cases ht
  this := rfl

lemma carried_refusesOperand : Carried refusesOperand where
  super n hn := by
    obtain ⟨s, t, ks⟩ := n
    cases t <;> first | rfl | cases hn
  this n hn := by
    obtain ⟨s, t, ks⟩ := n
    obtain rfl : t = .this := hn
    rfl
  kids parent isStatic receiver? s t ks _ := by
    cases t with
    | new hasArgs =>
      cases ks with
      | nil => rfl
      | cons callee args =>
        have himproves := improves_lower (isPlain_context parent isStatic receiver?) callee
        rw [map_cons, refusesOperand, refusesOperand, Position.admits_constructed himproves,
          Bool.not_false, Bool.and_true]
    | _ => rfl

/-! ## The traversal -/

/-- What a node and its result have in common, as far as parentheses go. -/
structure Faced (n n' : Node) : Prop extends Kept n n' where
  improves : n.face.Improves (startsWithLowered n) n'.face
  seated : Seated n → Seated n'
  operands : n'.any refusesOperand = n.any fun m => refusesOperand m || constructsLowered m

/-- Behind `new` an operand must not become a call. -/
lemma refusesOperand_eq (hks : Forall₂ Faced ks ks') :
    refusesOperand (mk s t ks') = (refusesOperand (mk s t ks) || constructsLowered (mk s t ks)) := by
  cases t with
  | new hasArgs =>
    cases hks with
    | nil => rfl
    | cons hk _ =>
      rw [refusesOperand, refusesOperand, constructsLowered, Position.admits_constructed hk.improves,
        Bool.not_and, Bool.not_not]
  | _ => rfl

/-- The call in the place of a class. -/
lemma faced_build (name : String) (parent? : Option String) {cls' : Node} (hcls : Faced cls cls')
    (hc : cls'.Is .cls) (hl : isLowerable cls' = true) (ht : (∃ i, t = .classDecl i) ∨ ∃ i?, t = .classExpr i?) :
    (Seated (mk s t [cls]) → Seated (build name parent? cls')) ∧ (build name parent? cls').any refusesOperand =
        (mk s t [cls]).any fun m => refusesOperand m || constructsLowered m := by
  have hfree : ∀ i, t.position i = .free := by
    rcases ht with ⟨i, rfl⟩ | ⟨i?, rfl⟩ <;> exact fun _ => rfl
  have hnone : (refusesOperand (mk s t [cls]) || constructsLowered (mk s t [cls])) = false := by
    rcases ht with ⟨i, rfl⟩ | ⟨i?, rfl⟩ <;> rfl
  have hkids : cls'.kids.any (·.any refusesOperand) = cls'.any refusesOperand := by
    obtain ⟨sc, cks, rfl⟩ := eq_of_role hc.2 rfl
    rw [any_mk]
    rfl
  constructor
  · intro hs
    exact seated_build hc hl (hcls.seated ((seated_free hfree).mp hs cls (by simp))) _ _
  · rw [any_build_eq_of_carried carried_refusesOperand (fun _ _ _ _ => rfl) (fun _ _ => rfl) hc hl, hkids,
      hcls.operands, any_mk _ s, hnone]
    simp

lemma face_build (name : String) (parent? : Option String) (cls : Node) :
    (build name parent? cls).face = { level := .call } := by
  rw [build, face_call, face_paren]

lemma face_declaration (name : String) (parent? : Option String) (cls : Node) :
    (var [declarator (binding name) (some (build name parent? cls))]).face = {} := by
  rw [var, make, face_mk, map_singleton, declarator, make, face_mk]
  simp only [toList_some, map_cons, map_nil, face_build]
  rfl

lemma faced_step {n' : Node} {c d : Nat} (hE : Each (fun n n' _ => n.WellFormed → Faced n n') ks ks' c)
    (hR : Ruled (mk s t ks') n' d) (h : (mk s t ks).WellFormed) : Faced (mk s t ks) n' := by
  have hks : Forall₂ Faced ks ks' := hE.forall₂ fun k hk k' d hr => hr (h.kid hk)
  have hkids : Forall₂ Kept ks ks' := hks.imp fun _ _ hk => hk.toKept
  have hkept : Kept (mk s t ks) n' := kept_step (hE.mono fun k _ k' d hr hw => (hr hw).toKept) hR h
  have hw : (mk s t ks').WellFormed := (kept_mk hkids h).is.1
  have hcongr := isLowered_congr hkids h
  cases hR with
  | keep hn =>
    refine ⟨hkept, ?_, seated_of_forall₂ (hks.imp fun _ _ hk => ⟨hk.improves, hk.seated⟩), ?_⟩
    · rw [startsWithLowered_mk (hcongr ▸ hn)]
      exact improves_mk (hks.imp fun _ _ hk => hk.improves)
    · rw [any_mk, any_mk, refusesOperand_eq hks]
      congr 1
      exact hE.any_eq fun k hk k' d hr => (hr (h.kid hk)).operands
  | @decl s i cls' parent? hl =>
    obtain ⟨cls, _, hcls, hnil, rfl⟩ := forall₂_cons_right_iff.mp hks
    cases hnil
    obtain ⟨hseated, hany⟩ := faced_build i.name parent? (s := s) hcls
      (cls_of_def hw (.inl ⟨i, rfl⟩)) hl (.inl ⟨i, rfl⟩)
    refine ⟨hkept, ?_, fun hs => ?_, ?_⟩
    · rw [face_declaration, face_mk]
      exact .refl _
    · refine (seated_free fun _ => rfl).mpr (forall_mem_singleton.mpr ?_)
      refine (seated_mk_of_position fun _ => rfl).mpr (forall_mem_cons.mpr ⟨⟨rfl, seated_leaf⟩, ?_⟩)
      refine forall_mem_singleton.mpr (stands_assignment.mpr ⟨?_, hseated hs⟩)
      simp [face_build]
    · rw [← hany]
      simp
  | @expr s i? cls' name parent? hl =>
    obtain ⟨cls, _, hcls, hnil, rfl⟩ := forall₂_cons_right_iff.mp hks
    cases hnil
    obtain ⟨hseated, hany⟩ := faced_build name parent? (s := s) hcls
      (cls_of_def hw (.inr ⟨i?, rfl⟩)) hl (.inr ⟨i?, rfl⟩)
    have hlowered : startsWithLowered (mk s (.classExpr i?) [cls]) = true :=
      (hcls.cls (cls_of_def h (.inr ⟨i?, rfl⟩)).2).symm.trans hl
    refine ⟨hkept, ?_, hseated, hany⟩
    rw [hlowered, face_build, face_mk]
    exact ⟨⟨rfl, rfl⟩, .inr rfl, fun h => by cases h⟩

/-- **Which scripts stay safe when classes are lowered**: all in which no `new` is applied to a class that is
lowered, or to a property or a template behind one, without parentheses. -/
theorem parenSafe_lowerScript_iff {s : Script} (h : s.WellFormed) (hs : s.parenSafe = true) :
    (lowerScript s).1.parenSafe = true ↔ ∀ span hasArgs callee args,
      s.Contains (mk span (.new hasArgs) (callee :: args)) → startsWithLowered callee = false := by
  have hE := lowerScript_rel (R := fun n n' _ => n.WellFormed → Faced n n')
    (fun s t ks ks' n' c d hE hR hw => faced_step hE hR hw) s
  obtain ⟨hseated, hoperands⟩ := s.parenSafe_iff.mp hs
  have hseated' : ∀ n ∈ (lowerScript s).1.body, Seated n :=
    hE.forall_right fun k hk k' d hr => (hr (h k hk).1).seated (hseated k hk)
  have hany : (lowerScript s).1.body.any (·.any refusesOperand) =
      s.body.any (·.any fun m => refusesOperand m || constructsLowered m) :=
    hE.any_eq fun k hk k' d hr => (hr (h k hk).1).operands
  rw [Script.parenSafe_iff, hany, Script.any_body_eq_false_iff]
  constructor
  · rintro ⟨-, hnone⟩ span hasArgs callee args hnew
    exact (Bool.or_eq_false_iff.mp (hnone _ hnew)).2
  · refine fun hnew => ⟨hseated', fun m hm => Bool.or_eq_false_iff.mpr ⟨?_, ?_⟩⟩
    · exact (s.any_body_eq_false_iff _).mp hoperands m hm
    · unfold constructsLowered
      split
      · exact hnew _ _ _ _ hm
      · rfl

/-- A class expression with the given members. -/
def classOf (members heritage : List Node) : Node :=
  make (.classExpr none) [make .cls (make .members members :: heritage)]

/-- `f(class extends B { m() { return super.x ??= new (class {})(); } }.y)`: one class is an argument, and the
other stands in parentheses. -/
theorem parenSafe_lowerScript_iff_argument :
    let body := returnStmt (make (.assign (.compound .nullish))
      [make (.superMember .none) [make (.keyName "x") []],
        make (.new true) [paren (classOf [] [])]])
    let method := make (.method .method false) [make (.keyName "m") [], func [] [body]]
    let s : Script := { body := [exprStmt (call (ident "f")
      [member (classOf [method] [ident "B"]) "y"])] }
    s.WellFormed ∧ s.parenSafe = true ∧ (lowerScript s).1.parenSafe = true := by
  intro body method s
  have hw : s.WellFormed := by decide
  have hs : s.parenSafe = true := by decide
  refine ⟨hw, hs, (parenSafe_lowerScript_iff hw hs).mpr fun span hasArgs callee args hnew => ?_⟩
  exact (s.any_body_eq_false_iff constructsLowered).mp (by decide) _ hnew

/-- **A class behind `new`**: `var a = new class { constructor(x) { this.x = x; } }(1)` needs no parentheses, and
the call in the place of the class does. -/
theorem parenSafe_of_new_class :
    let store := exprStmt (assign (member this "x") (ident "x"))
    let ctor := make .ctor [make (.keyName "constructor") [],
      params [binding "x"], block [store]]
    let s : Script := { body := [var [declarator (binding "a")
      (some (make (.new true) [classOf [ctor] [], natLit 1]))]] }
    s.WellFormed ∧ s.parenSafe = true ∧ (lowerScript s).1.parenSafe = false := by
  decide

end Class

end EcmaLower
