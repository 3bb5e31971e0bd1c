import EcmaLower.Lower.Class
import EcmaLower.Proofs.SuperContext
import EcmaLower.Proofs.Traversal

/-!
# Classes as calls

The call that builds a class: which members a class must have to be lowered, the code that each
member becomes, and what the call as a whole is and holds.
-/

namespace EcmaLower.Class

open Node List Build SuperContext

variable {s sf sm : Span} {k m cls parent : Node} {ks ks' hs fks l ms new : List Node} {isStatic a g : Bool}
  {kind : MethodKind} {n : Nat} {name parentName : String} {t : Tag}

/-! ## Members -/

/-- The role of a node and those of its children. -/
def shape (n : Node) : Role × List Role := (n.role, n.kids.map role)

/-- Whether a member is plain can be read off its shape. -/
lemma isPlainMember_eq (m : Node) : isPlainMember m = match shape m with
    | (.ctor, _) | (.emptyMember, _) => true
    | (.method, rs) | (.field, rs) => !(rs.head? == some .privateKey)
    | _ => false := by
  obtain ⟨s, t, ks⟩ := m
  have hkey : hasPrivateKey (mk s t ks) = ((ks.map role).head? == some .privateKey) := by
    cases ks with
    | nil => rfl
    | cons k ks =>
      obtain ⟨sk, tk, kks⟩ := k
      cases tk <;> rfl
  cases t <;> first | rfl | exact congrArg not hkey

/-- Whether a class can be lowered can be read off the shapes of its members. -/
lemma isLowerable_congr {s' : Span} {t' : Tag}
    (h : ks'.head?.map (fun m => m.kids.map shape) = ks.head?.map fun m => m.kids.map shape) :
    isLowerable (mk s' t' ks') = isLowerable (mk s t ks) := by
  have hall : ∀ l : List Node, l.all isPlainMember = (l.map shape).all fun r => match r with
      | (.ctor, _) | (.emptyMember, _) => true
      | (.method, rs) | (.field, rs) => !(rs.head? == some .privateKey)
      | _ => false := by
    intro l
    rw [all_map]
    congr 1
    funext m
    exact isPlainMember_eq m
  simp only [isLowerable, membersOf, kids_mk, hall]
  cases ks with
  | nil =>
    cases ks' with
    | nil => rfl
    | cons _ _ => cases h
  | cons k ks =>
    cases ks' with
    | nil => cases h
    | cons k' ks' =>
      simp only [head?_cons, Option.map_some, Option.some.injEq] at h
      simp only [head?_cons, Option.map_some, Option.getD_some, h]

/-- The members that a class must have to be lowered. -/
inductive MemberShape : Node → Prop
  | ctor {s sb : Span} {k p : Node} {stmts : List Node} : k.Is .key → p.Is .params →
    (mk sb .block stmts).Is .block → MemberShape (mk s .ctor [k, p, mk sb .block stmts])
  | method {s sf : Span} {kind : MethodKind} {isStatic a g : Bool} {k p b : Node} :
    k.OfRole Role.isPublicKey → p.Is .params → b.Is .block →
    MemberShape (mk s (.method kind isStatic) [k, mk sf (.func a g) [p, b]])
  | field {s : Span} {isStatic : Bool} {k : Node} : k.OfRole Role.isPublicKey →
    MemberShape (mk s (.field isStatic) [k])
  | fieldInit {s : Span} {isStatic : Bool} {k v : Node} : k.OfRole Role.isPublicKey → v.Is .expr →
    MemberShape (mk s (.field isStatic) [k, v])
  | empty {s : Span} : MemberShape (mk s .emptyMember [])

lemma memberShape (h : m.WellFormed) (hp : isPlainMember m = true) : MemberShape m := by
  obtain ⟨s, t, ks⟩ := m
  have hkey : ∀ {k : Node}, k.role.isKey = true → k.role ≠ .privateKey → k.role.isPublicKey = true := by
    intro k hk hne
    simpa [Role.isKey, hne] using hk
  have ne_privateKey : ∀ {k : Node} {ks : List Node},
      (!((k :: ks).map role).head? == some Role.privateKey) = true → k.role ≠ .privateKey := by
    intro k ks hne he
    simp [he] at hne
  rw [isPlainMember_eq] at hp
  cases t with
  | ctor =>
    obtain ⟨k, p, b, rfl, hk, hps, hb⟩ := h.ctor
    obtain ⟨sb, stmts, rfl⟩ := eq_of_role hb.2 rfl
    exact .ctor hk hps hb
  | emptyMember =>
    obtain rfl : ks = [] := h.leaf rfl
    exact .empty
  | method kind isStatic =>
    obtain ⟨k, f, rfl, hk, hf⟩ := h.method
    obtain ⟨sf, a, g, fks, rfl⟩ := eq_func hf.2
    obtain ⟨p, b, rfl, hp', hb⟩ := hf.1.func
    exact .method ⟨hk.1, hkey hk.2 (ne_privateKey hp)⟩ hp' hb
  | field isStatic =>
    obtain ⟨k, value, rfl, hk, rfl | ⟨v, rfl, hv⟩⟩ := h.field
    · exact .field ⟨hk.1, hkey hk.2 (ne_privateKey hp)⟩
    · exact .fieldInit ⟨hk.1, hkey hk.2 (ne_privateKey hp)⟩ hv
  | _ => cases hp

lemma isMember_of_mem (h : (mk s .members ms).WellFormed) (hk : k ∈ ms) : k.OfRole Role.isMember := by
  have hroles := h.fits
  simp only [Tag.fits, Role.areMembers, Bool.and_eq_true, all_eq_true] at hroles
  exact ⟨h.kid hk, hroles.1 _ (mem_map_of_mem hk)⟩

/-- A class has its members, and perhaps a heritage. -/
lemma cls_shape (h : cls.Is .cls) : ∃ s sm ms hs,
    cls = mk s .cls (mk sm .members ms :: hs) ∧ (mk sm .members ms).Is .members ∧
    (∀ e ∈ hs, e.Is .expr) ∧ hs.length ≤ 1 := by
  obtain ⟨s, ks, rfl⟩ := eq_of_role h.2 rfl
  have hroles := h.1.fits
  simp only [Tag.fits, Bool.or_eq_true, beq_iff_eq] at hroles
  rcases hroles with hroles | hroles
  · obtain ⟨m, l, rfl, hm, hl⟩ := map_eq_cons_iff.mp hroles
    rw [map_eq_nil_iff] at hl
    subst hl
    obtain ⟨sm, ms, rfl⟩ := eq_of_role hm rfl
    exact ⟨s, sm, ms, [], rfl, ⟨h.1.kid (by simp), hm⟩, by simp, by simp⟩
  · obtain ⟨m, e, rfl, hm, he⟩ := map_role_eq_pair hroles
    obtain ⟨sm, ms, rfl⟩ := eq_of_role hm rfl
    exact ⟨s, sm, ms, [e], rfl, ⟨h.1.kid (by simp), hm⟩,
      forall_mem_singleton.mpr ⟨h.1.kid (by simp), he⟩, by simp⟩

/-- The members of a class that is lowered. -/
lemma memberShapes (h : (mk s .cls (mk sm .members ms :: hs)).Is .cls)
    (hl : isLowerable (mk s .cls (mk sm .members ms :: hs)) = true) : ∀ m ∈ ms, MemberShape m :=
  fun m hm => memberShape (WellFormed.kid (h.1.kid (mem_cons_self ..)) hm) (all_eq_true.mp hl m hm)

/-! ## Keys -/

/-- The keys that a member of such a class has. -/
inductive KeyShape : Node → Prop
  | name {s : Span} {x : String} : KeyShape (mk s (.keyName x) [])
  | str {s : Span} {x : StrLit} : KeyShape (mk s (.keyStr x) [])
  | num {s : Span} {x : NumLit} : KeyShape (mk s (.keyNum x) [])
  | bigInt {s : Span} {x : String} : KeyShape (mk s (.keyBigInt x) [])
  | computed {s : Span} {e : Node} : e.Is .expr → KeyShape (mk s .keyComputed [e])

lemma keyShape (h : k.OfRole Role.isPublicKey) : KeyShape k := by
  obtain ⟨s, t, ks⟩ := k
  obtain ⟨hw, hr⟩ := h
  cases t with
  | keyName x | keyStr x | keyNum x | keyBigInt x =>
    obtain rfl : ks = [] := hw.leaf rfl
    constructor
  | keyComputed =>
    obtain ⟨e, rfl, he⟩ := hw.single rfl
    exact .computed he
  | _ => cases hr

lemma isKey_of_isPublicKey (h : k.OfRole Role.isPublicKey) : k.OfRole Role.isKey :=
  ⟨h.1, by rw [Role.isKey, h.2, Bool.true_or]⟩

lemma is_keyAsMember (h : k.OfRole Role.isPublicKey) : (keyAsMember k).OfRole Role.isPublicKey := by
  cases keyShape h with
  | name | computed => exact h
  | str | num | bigInt => exact ⟨rfl, rfl⟩

lemma is_keyAsExpr (h : k.OfRole Role.isPublicKey) : (keyAsExpr k).Is .expr := by
  cases keyShape h with
  | name | str | num | bigInt => exact ⟨rfl, rfl⟩
  | computed he => exact he

section Search

variable {p : Node → Bool} [Foreign p]

lemma any_keyAsMember (h : k.OfRole Role.isPublicKey) : (keyAsMember k).any p = k.any p := by
  cases keyShape h with
  | name | computed => rfl
  | str | num | bigInt => rw [keyAsMember, any_computedKey, any_core rfl, any_core rfl]

lemma any_keyAsExpr (h : k.OfRole Role.isPublicKey) : (keyAsExpr k).any p = k.any p := by
  cases keyShape h with
  | name => rw [keyAsExpr, any_strLit, any_core rfl, any_nil]
  | str | num | bigInt => rw [keyAsExpr, any_core rfl, any_core rfl]
  | computed => rw [keyAsExpr, any_core rfl, any_cons, any_nil, Bool.or_false]

end Search

/-! ## The code of members -/

/-- The context of the constructor and of the instance members. -/
def instanceContext (parent : Node) : SuperContext := { parent, isStatic := false }

/-- The context of the initializers of static fields. -/
def staticContext (name : String) (parent : Node) : SuperContext :=
  { parent, isStatic := true, receiver? := some (ident name) }

/-- The code that a member becomes: the parameters and statements of a constructor, and the
statement for any other member. -/
def memberCode (name : String) (parent m : Node) : List Node :=
  match m with
  | .mk _ .ctor [_, params, .mk _ _ stmts] => (params :: stmts).map (instanceContext parent).lower
  | .mk _ (.method ..) _ => [defineMethod name parent m]
  | .mk _ (.field false) _ => [(instanceContext parent).lower (initField this m)]
  | .mk _ (.field true) _ => [defineStatic name parent m]
  | _ => []

lemma fieldParts_is (h : MemberShape (mk s (.field isStatic) ks)) :
    (fieldParts (mk s (.field isStatic) ks)).1.OfRole Role.isPublicKey ∧
      (fieldParts (mk s (.field isStatic) ks)).2.Is .expr := by
  cases h with
  | field hk => exact ⟨hk, is_undefined⟩
  | fieldInit hk hv => exact ⟨hk, hv⟩

/-- A store to a property of `owner`, as it is made for a field. -/
lemma is_initField {owner field : Node} (ho : owner.Is .expr)
    (hk : (fieldParts field).1.OfRole Role.isPublicKey) (hv : (fieldParts field).2.Is .expr) :
    (initField owner field).Is .stmt := by
  have hkey := isKey_of_isPublicKey (is_keyAsMember hk)
  exact is_exprStmt.mpr
    (is_assign.mpr ⟨(is_access.mpr ⟨ho, hkey⟩).ofRole rfl, hv⟩)

/-- The statement that initializes a field is rewritten in its key and its value. -/
lemma lower_initField (parent m : Node) : (instanceContext parent).lower (initField this m) =
    exprStmt (assign (access this ((instanceContext parent).lower (keyAsMember (fieldParts m).1)))
      ((instanceContext parent).lower (fieldParts m).2)) := by
  simp [initField, lower_this (c := instanceContext parent) rfl]

section Context

variable {parent : Node} {name : String}

lemma instanceContext_wellFormed (h : parent.Is .expr) : (instanceContext parent).WellFormed := ⟨h, is_this⟩

lemma staticContext_wellFormed (name : String) (h : parent.Is .expr) : (staticContext name parent).WellFormed :=
  ⟨h, is_ident⟩

lemma methodContext_wellFormed (h : parent.Is .expr) (isStatic : Bool) :
    ({ parent, isStatic } : SuperContext).WellFormed := ⟨h, is_this⟩

lemma is_defineMethod (hp : parent.Is .expr) (h : MemberShape m) (hm : m.role = .method) :
    (defineMethod name parent m).Is .stmt := by
  cases h with
  | @method s sf kind isStatic a g k p b hk hps hb =>
    have hc := methodContext_wellFormed hp isStatic
    have hf : (mk sf (.func a g) [SuperContext.lower { parent, isStatic } p,
        SuperContext.lower { parent, isStatic } b]).Is .func :=
      is_of_roles (.cons (hps.2 ▸ hc.lower_is p hps.1) (.cons (hb.2 ▸ hc.lower_is b hb.1) .nil)) rfl rfl
    have ht : (if isStatic then ident name else member (ident name) "prototype").Is .expr := by
      split <;> simp
    have hkey := isKey_of_isPublicKey (is_keyAsMember hk)
    cases kind with
    | method => simp [defineMethod, ht, hkey, hf]
    | getter | setter =>
      refine is_exprStmt.mpr (is_call.mpr ⟨is_path _, ?_⟩)
      simpa [ht, is_keyAsExpr hk] using ofRole_isArgument ((is_object _).mpr (by simp [hf]))
  | ctor | field | fieldInit | empty => cases hm

lemma is_defineStatic (hp : parent.Is .expr) (hk : (fieldParts m).1.OfRole Role.isPublicKey)
    (hv : (fieldParts m).2.Is .expr) : (defineStatic name parent m).Is .stmt := by
  have hkey := isKey_of_isPublicKey (is_keyAsMember hk)
  have hvalue := (staticContext_wellFormed name hp).lower_is _ hv.1
  exact is_exprStmt.mpr (is_assign.mpr ⟨(is_access.mpr ⟨is_ident, hkey⟩).ofRole rfl, hv.2 ▸ hvalue⟩)

end Context

/-! ## The constructor -/

lemma mem_insertAt : k ∈ insertAt n new l ↔ k ∈ new ∨ k ∈ l := by
  have hl : k ∈ l ↔ k ∈ l.take n ∨ k ∈ l.drop n := by
    rw [← mem_append, take_append_drop]
  rw [hl, insertAt, mem_append, mem_append]
  tauto

lemma any_insertAt {f : Node → Bool} : (insertAt n new l).any f = (new.any f || l.any f) := by
  have hl : l.any f = ((l.take n).any f || (l.drop n).any f) := by
    rw [← any_append, take_append_drop]
  rw [hl, insertAt, any_append, any_append, ← Bool.or_assoc, Bool.or_comm ((l.take n).any f)]

section Parts

variable {ms : List Node} (hms : ∀ m ∈ ms, MemberShape m)

include hms in
/-- The constructor that counts is one of the members. -/
lemma ctor?_cases : (ms.filter (·.tag == .ctor) = [] ∧ (Parts.ofMembers ms).ctor? = none) ∨
    ∃ s sb k p stmts, (Parts.ofMembers ms).ctor? = some (mk s .ctor [k, p, mk sb .block stmts]) ∧
      mk s .ctor [k, p, mk sb .block stmts] ∈ ms ∧ p.Is .params ∧ (mk sb .block stmts).Is .block := by
  rcases eq_nil_or_concat (ms.filter (·.tag == .ctor)) with hnil | ⟨l, m, hl⟩
  · exact .inl ⟨hnil, by simp [Parts.ofMembers, hnil]⟩
  · have hmem : m ∈ ms.filter (·.tag == .ctor) := by simp [hl]
    obtain ⟨hm, htag⟩ := mem_filter.mp hmem
    cases hms m hm with
    | ctor hk hp hb =>
      exact .inr ⟨_, _, _, _, _, by simp [Parts.ofMembers, hl], hm, hp, hb⟩
    | method | field | fieldInit | empty => cases htag

/-- Where a class has at most one constructor, it is the one found. -/
lemma ctors_eq_singleton (hone : (ms.filter (·.tag == .ctor)).length ≤ 1) (hm : m ∈ ms) (ht : m.tag = .ctor) :
    ms.filter (·.tag == .ctor) = [m] := by
  have hin : m ∈ ms.filter (·.tag == .ctor) := mem_filter.mpr ⟨hm, beq_iff_eq.mpr ht⟩
  obtain ⟨m', hm'⟩ := length_eq_one_iff.mp (Nat.le_antisymm hone (length_pos_of_mem hin))
  rw [hm'] at hin ⊢
  rw [mem_singleton.mp hin]

include hms in
lemma fieldParts_of_mem (hm : m ∈ ms.filter (·.tag == .field isStatic)) :
    (fieldParts m).1.OfRole Role.isPublicKey ∧ (fieldParts m).2.Is .expr := by
  obtain ⟨hm, htag⟩ := mem_filter.mp hm
  obtain ⟨s, t, ks⟩ := m
  obtain rfl : t = .field isStatic := beq_iff_eq.mp htag
  exact fieldParts_is (hms _ hm)

include hms in
lemma constructorParts_is (hp : parent.Is .expr) (derived : Bool) :
    (constructorParts parent derived (Parts.ofMembers ms)).1.Is .params ∧
      ∀ k ∈ (constructorParts parent derived (Parts.ofMembers ms)).2, k.OfRole Role.isStatement := by
  have hinits : ∀ k ∈ (Parts.ofMembers ms).fields.map (initField this), k.OfRole Role.isStatement := by
    refine forall_mem_map.mpr fun m hm => ?_
    obtain ⟨hk, hv⟩ := fieldParts_of_mem hms hm
    exact (is_initField is_this hk hv).ofRole rfl
  rcases ctor?_cases hms with ⟨-, hnone⟩ | ⟨s, sb, k, p, stmts, hsome, -, hps, hb⟩
  · simp only [constructorParts, hnone]
    refine ⟨⟨rfl, rfl⟩, fun k hk => ?_⟩
    rcases mem_append.mp hk with hk | hk
    · split at hk
      · simp [mem_singleton.mp hk, hp]
      · cases hk
    · exact hinits k hk
  · simp only [constructorParts, hsome]
    refine ⟨hps, fun k hk => ?_⟩
    rcases mem_insertAt.mp hk with hk | hk
    · exact hinits k hk
    · exact forall_ofRole.mpr (wellFormed_mk.mp hb.1) k hk

include hms in
lemma is_constructor (hp : parent.Is .expr) (derived : Bool) :
    (constructor parent derived (Parts.ofMembers ms)).Is .func := by
  obtain ⟨hps, hstmts⟩ := constructorParts_is hms hp derived
  have hc := instanceContext_wellFormed hp
  refine is_of_roles (.cons (hps.2 ▸ hc.lower_is _ hps.1) (.cons (is_block.mpr ?_) .nil)) rfl rfl
  refine forall_mem_map.mpr fun k hk => ?_
  exact (hc.lower_is k (hstmts k hk).1).ofRole (hstmts k hk).2

end Parts

/-! ## The call that builds a class -/

lemma is_inherit (name parentName : String) : ∀ k ∈ inherit name parentName, k.Is .stmt := by
  refine forall_mem_cons.mpr ⟨is_ifStmt.mpr ⟨by simp, ?_⟩, by simp⟩
  exact ofRole_isStatement_block (is_block.mpr (forall_mem_singleton.mpr (ofRole_isStatement (by simp))))

/-- **The call that builds a class is an expression.** -/
theorem is_build (h : cls.Is .cls) (hl : isLowerable cls = true) (name : String) (parent? : Option String) :
    (build name parent? cls).Is .expr := by
  obtain ⟨s, sm, ms, hs, rfl, -, hhs, -⟩ := cls_shape h
  have hms := memberShapes h hl
  have hp : (ident (parent?.getD "Object")).Is .expr := is_ident
  refine is_call.mpr ⟨is_paren.mpr (is_funcExpr.mpr ?_), ?_⟩
  · refine is_of_roles (.cons (Rest.is_params fun k hk => ?_) (.cons (is_block.mpr ?_) .nil))
      rfl rfl
    · obtain ⟨x, -, rfl⟩ := Option.map_eq_some_iff.mp (Option.mem_toList.mp hk)
      exact is_binding.ofRole rfl
    · intro k hk
      simp only [mem_append, mem_cons, not_mem_nil, or_false, mem_map] at hk
      have hstmt : k.Is .stmt := by
        rcases hk with ((((rfl | rfl) | hk) | ⟨m, hmem, rfl⟩) | ⟨m, hmem, rfl⟩) | rfl
        · exact is_useStrict
        · exact is_funcDecl.mpr (is_constructor hms hp _)
        · cases parent? with
          | none => cases hk
          | some parentName => exact is_inherit name parentName k hk
        · obtain ⟨hmem, htag⟩ := mem_filter.mp hmem
          obtain ⟨sm, tm, km⟩ := m
          refine is_defineMethod hp (hms _ hmem) ?_
          cases tm <;> first | rfl | cases htag
        · obtain ⟨hk, hv⟩ := fieldParts_of_mem hms hmem
          exact is_defineStatic hp hk hv
        · exact is_returnStmt.mpr is_ident
      exact hstmt.ofRole rfl
  · intro k hk
    exact (hhs k (mem_of_mem_head? (Option.mem_toList.mp hk))).ofRole rfl

/-- The function that makes a class has a receiver and a `super` of its own. -/
lemma lower_maker (c : SuperContext) (name : String) (parent? : Option String) (ms : List Node) :
    c.lower (paren (funcExpr (maker name parent? ms))) = paren (funcExpr (maker name parent? ms)) := by
  have hfunc : c.lower (maker name parent? ms) = maker name parent? ms := lower_closed rfl
  have hexpr : c.lower (funcExpr (maker name parent? ms)) = funcExpr (maker name parent? ms) :=
    (lower_plain rfl).trans (congrArg (fun f => mk _ (.funcExpr none) [f]) hfunc)
  exact (lower_plain rfl).trans (congrArg paren hexpr)

section Search

variable {p : Node → Bool} [Foreign p] {ms : List Node} {name : String}

lemma any_inherit (name parentName : String) : (inherit name parentName).any (·.any p) = false := by
  simp [inherit]

/-- What a search finds in the code of a member. -/
def codeAny (p : Node → Bool) (name : String) (parent m : Node) : Bool := (memberCode name parent m).any (·.any p)

omit [Foreign p] in
/-- The statements that initialize fields are the code of these. -/
lemma any_fields (parentName : String) : (((Parts.ofMembers ms).fields.map (initField this)).map
      (instanceContext (ident parentName)).lower).any (·.any p) =
        (ms.filter (·.tag == .field false)).any (codeAny p name (ident parentName)) := by
  rw [any_map, any_map]
  refine any_congr_mem fun m hm => ?_
  obtain ⟨sm, tm, km⟩ := m
  obtain rfl : tm = .field false := beq_iff_eq.mp (mem_filter.mp hm).2
  simp [codeAny, memberCode]

lemma any_constructor (hms : ∀ m ∈ ms, MemberShape m)
    (hone : (ms.filter (·.tag == .ctor)).length ≤ 1) (name parentName : String) (derived : Bool) :
    (constructor (ident parentName) derived (Parts.ofMembers ms)).any p =
      (p (constructor (ident parentName) derived (Parts.ofMembers ms)) ||
        ((ms.filter (·.tag == .ctor)).any (codeAny p name (ident parentName)) ||
          (ms.filter (·.tag == .field false)).any (codeAny p name (ident parentName)))) := by
  set c := instanceContext (ident parentName) with hc
  have hfields : (((Parts.ofMembers ms).fields.map (initField this)).map c.lower).any (·.any p) =
      (ms.filter (·.tag == .field false)).any (codeAny p name (ident parentName)) := any_fields parentName
  have hparams : (c.lower (params [])).any p = false := by
    rw [SuperContext.lower_eq_self rfl _ (by simp), any_params, any_nil]
  have hparent : c.lower (exprStmt (call (member (ident parentName) "apply") [this, ident "arguments"])) =
      exprStmt (call (member (ident parentName) "apply") [this, ident "arguments"]) :=
    SuperContext.lower_eq_self rfl _ (by simp)
  have hmake : ∀ (params : Node) (stmts : List Node), (make (.func false false)
      [c.lower params, block (stmts.map c.lower)]).any p =
        (p (make (.func false false) [c.lower params, block (stmts.map c.lower)]) ||
          ((c.lower params).any p || (stmts.map c.lower).any (·.any p))) := by
    intro params stmts
    rw [make, any_mk]
    simp
  rcases ctor?_cases hms with ⟨hnil, hnone⟩ | ⟨s, sb, k, ps, stmts, hsome, hmem, -⟩
  · have hcons : constructor (ident parentName) derived (Parts.ofMembers ms) =
        make (.func false false) [c.lower (params []), block (((if derived then [exprStmt (call
            (member (ident parentName) "apply") [this, ident "arguments"])]
            else []) ++ (Parts.ofMembers ms).fields.map (initField this)).map c.lower)] := by
      simp only [constructor, constructorParts, hnone]
      rfl
    rw [hcons, hmake, hparams, map_append, any_append, hfields, hnil]
    cases derived <;> simp [hparent, -lower_exprStmt]
  · have hcons : constructor (ident parentName) derived (Parts.ofMembers ms) =
        make (.func false false) [c.lower ps, block ((insertAt (fieldsIndex stmts)
          ((Parts.ofMembers ms).fields.map (initField this)) stmts).map c.lower)] := by
      simp only [constructor, constructorParts, hsome]
      rfl
    rw [hcons, hmake, any_map, any_insertAt, ← any_map, hfields, ctors_eq_singleton hone hmem rfl]
    simp only [any_cons, any_nil, Bool.or_false, codeAny, memberCode, map_cons, any_map, ← hc]
    ac_rfl

omit [Foreign p] in
/-- Every member becomes code of one kind. -/
lemma any_members (hms : ∀ m ∈ ms, MemberShape m) (parent : Node) : ms.any (codeAny p name parent) =
      ((ms.filter (·.tag == .ctor)).any (codeAny p name parent) ||
        (ms.filter (·.tag == .field false)).any (codeAny p name parent) ||
        (Parts.ofMembers ms).methods.any (codeAny p name parent) ||
        (ms.filter (·.tag == .field true)).any (codeAny p name parent)) := by
  rw [Bool.eq_iff_iff]
  simp only [Parts.ofMembers, Bool.or_eq_true, any_eq_true, mem_filter]
  constructor
  · rintro ⟨m, hm, h⟩
    cases hms m hm with
    | ctor => exact .inl (.inl (.inl ⟨_, ⟨hm, rfl⟩, h⟩))
    | method => exact .inl (.inr ⟨_, ⟨hm, rfl⟩, h⟩)
    | @field _ isStatic | @fieldInit _ isStatic =>
      cases isStatic with
      | false => exact .inl (.inl (.inr ⟨_, ⟨hm, rfl⟩, h⟩))
      | true => exact .inr ⟨_, ⟨hm, rfl⟩, h⟩
    | empty => cases h
  · rintro (((⟨m, ⟨hm, -⟩, h⟩ | ⟨m, ⟨hm, -⟩, h⟩) | ⟨m, ⟨hm, -⟩, h⟩) | ⟨m, ⟨hm, -⟩, h⟩) <;>
      exact ⟨m, hm, h⟩

omit [Foreign p] in
/-- A class has at most one constructor. -/
lemma ctor_length (h : (mk sm .members ms).WellFormed) : (ms.filter (·.tag == .ctor)).length ≤ 1 := by
  have hroles := h.fits
  simp only [Tag.fits, Role.areMembers, Bool.and_eq_true, decide_eq_true_eq] at hroles
  have htag : ∀ m : Node, (m.role == .ctor) = (m.tag == .ctor) := by
    rintro ⟨s, t, ks⟩
    cases t <;> rfl
  rw [← countP_eq_length_filter]
  simpa [List.count, countP_map, Function.comp_def, htag] using hroles.2

/-- **The call that builds a class holds the code of its members and its heritage**, and two functions: the
one that makes the class, and the constructor. -/
theorem any_build_functions (h : (mk s .cls (mk sm .members ms :: hs)).Is .cls)
    (hl : isLowerable (mk s .cls (mk sm .members ms :: hs)) = true) (name : String) (parent? : Option String) :
    (build name parent? (mk s .cls (mk sm .members ms :: hs))).any p =
      (p (maker name parent? ms) || p (constructor (ident (parent?.getD "Object")) parent?.isSome
          (Parts.ofMembers ms)) ||
        (ms.any (codeAny p name (ident (parent?.getD "Object"))) || hs.any (·.any p))) := by
  obtain ⟨_, _, _, _, ⟨⟩, hm, -, hlen⟩ := cls_shape h
  have hms := memberShapes h hl
  have hone := ctor_length hm.1
  have hheritage : (heritage? (mk s .cls (mk sm .members ms :: hs))).toList = hs := by
    match hs, hlen with
    | [], _ => rfl
    | [e], _ => rfl
  have hparent : ((parent?.map (inherit name)).getD []).any (·.any p) = false := by
    cases parent? with
    | none => rfl
    | some parentName => exact any_inherit name parentName
  have hbinding : (parent?.map binding).toList.any (·.any p) = false := by
    cases parent? <;> simp
  have hmethods : ((Parts.ofMembers ms).methods.map (defineMethod name
      (ident (parent?.getD "Object")))).any (·.any p) =
        (Parts.ofMembers ms).methods.any (codeAny p name (ident (parent?.getD "Object"))) := by
    rw [any_map]
    refine any_congr_mem fun m hmem => ?_
    obtain ⟨s, t, ks⟩ := m
    have htag := (mem_filter.mp hmem).2
    cases t <;> first | (cases htag; done) | simp [codeAny, memberCode]
  have hstatics : ((Parts.ofMembers ms).staticFields.map (defineStatic name
      (ident (parent?.getD "Object")))).any (·.any p) =
        (ms.filter (·.tag == .field true)).any
          (codeAny p name (ident (parent?.getD "Object"))) := by
    rw [any_map]
    refine any_congr_mem fun m hmem => ?_
    obtain ⟨s, t, ks⟩ := m
    obtain rfl : t = .field true := beq_iff_eq.mp (mem_filter.mp hmem).2
    simp [codeAny, memberCode]
  have hmembers : membersOf (mk s .cls (mk sm .members ms :: hs)) = ms := rfl
  simp only [build, maker, hmembers, any_call, any_paren, any_funcExpr, any_func, hheritage,
    hbinding, any_append, any_cons, any_nil, any_useStrict, any_funcDecl,
    hparent, hmethods, hstatics, any_returnStmt, any_ident]
  rw [any_constructor hms hone name, any_members hms]
  simp only [Bool.false_or, Bool.or_false]
  ac_rfl

/-- A search for no functions finds the code of the members and the heritage. -/
theorem any_build (hf : ∀ s a g ks, p (mk s (.func a g) ks) = false)
    (h : (mk s .cls (mk sm .members ms :: hs)).Is .cls)
    (hl : isLowerable (mk s .cls (mk sm .members ms :: hs)) = true) (name : String) (parent? : Option String) :
    (build name parent? (mk s .cls (mk sm .members ms :: hs))).any p =
      (ms.any (codeAny p name (ident (parent?.getD "Object"))) || hs.any (·.any p)) := by
  rw [any_build_functions h hl, show p (maker name parent? ms) = false from hf ..,
    show p (constructor (ident (parent?.getD "Object")) parent?.isSome (Parts.ofMembers ms)) = false
      from hf .., Bool.false_or, Bool.false_or]

end Search

/-! ## Searches for other syntax -/

section Frame

variable {p : Node → Bool} [Foreign p]

/-- A property that the members of a class take with them when they are lowered. -/
structure Carried (p : Node → Bool) : Prop where
  super : ∀ n, n.tag.isSuper = true → p n = false
  this : ∀ n, n.tag = .this → p n = false
  kids : ∀ (parent : String) (isStatic : Bool) (receiver? : Option String) s t ks, (mk s t ks).WellFormed →
    p (mk s t (ks.map (SuperContext.lower ⟨ident parent, isStatic, receiver?.map ident⟩))) = p (mk s t ks)

/-- A property that the lowering of classes neither makes nor destroys. -/
structure Apart (p : Node → Bool) : Prop where
  func : ∀ s a g ks, p (mk s (.func a g) ks) = false
  ctor : ∀ s ks, p (mk s .ctor ks) = false
  super : ∀ n, n.tag.isSuper = true → p n = false
  this : ∀ n, n.tag = .this → p n = false
  kids : ∀ (c : SuperContext) s t ks, (mk s t ks).WellFormed → p (mk s t (ks.map c.lower)) = p (mk s t ks)

omit [Foreign p] in
lemma Apart.carried (hp : Apart p) : Carried p := ⟨hp.super, hp.this, fun _ _ _ => hp.kids _⟩

/-- What a search finds in the statement that defines a method: its key and the function. -/
lemma any_defineMethod_func (hk : k.OfRole Role.isPublicKey) :
    (defineMethod name (ident parentName) (mk s (.method kind isStatic) [k, mk sf (.func a g) fks])).any p =
      (k.any p || (mk sf (.func a g)
        (fks.map (SuperContext.lower { parent := ident parentName, isStatic }))).any p) := by
  have htarget : (if isStatic then ident name
      else member (ident name) "prototype").any p = false := by
    split <;> simp
  cases kind <;> simp [defineMethod, htarget, any_keyAsMember hk, any_keyAsExpr hk]

lemma any_defineMethod (hf : ∀ s a g ks, p (mk s (.func a g) ks) = false) (hk : k.OfRole Role.isPublicKey) :
    (defineMethod name (ident parentName) (mk s (.method kind isStatic) [k, mk sf (.func a g) fks])).any p =
      (k.any p || fks.any fun f =>
        (SuperContext.lower { parent := ident parentName, isStatic } f).any p) := by
  rw [any_defineMethod_func hk, any_mk, hf, Bool.false_or, any_map]
  rfl

/-- What a search finds in the statement that initializes a static field. -/
lemma any_defineStatic (hk : (fieldParts m).1.OfRole Role.isPublicKey) :
    (defineStatic name (ident parentName) m).any p = ((fieldParts m).1.any p ||
      ((staticContext name (ident parentName)).lower (fieldParts m).2).any p) := by
  simp only [defineStatic, any_exprStmt, any_assign, any_access, any_ident, any_keyAsMember hk, Bool.false_or]
  rfl

lemma any_initField (hk : (fieldParts m).1.OfRole Role.isPublicKey) :
    (initField this m).any p = ((fieldParts m).1.any p || (fieldParts m).2.any p) := by
  simp only [initField, any_exprStmt, any_assign, any_access, any_this, any_keyAsMember hk, Bool.false_or]

/-- The key and the value of a field are all that a search finds in it. -/
lemma any_field (h : MemberShape (mk s (.field isStatic) ks)) :
    (mk s (.field isStatic) ks).any p = ((fieldParts (mk s (.field isStatic) ks)).1.any p ||
      (fieldParts (mk s (.field isStatic) ks)).2.any p) := by
  rw [any_core rfl]
  cases h <;> simp [fieldParts]

lemma any_leafKey (h : k.Is .key) : k.any p = false := by
  obtain ⟨s, t, ks⟩ := k
  obtain ⟨hw, hr⟩ := h
  cases t with
  | keyName x | keyStr x | keyNum x | keyBigInt x =>
    obtain rfl : ks = [] := hw.leaf rfl
    rw [any_core rfl, any_nil]
  | _ => cases hr

/-- **A search finds in the code of a member what it finds in the member**, a constructor itself apart. -/
theorem any_member (hp : Carried p) (name parentName : String) (h : MemberShape m) :
    m.any p = (p m || codeAny p name (ident parentName) m) := by
  have hlower : ∀ (isStatic : Bool) (n : Node), n.WellFormed → (SuperContext.lower
      { parent := ident parentName, isStatic } n).any p = n.any p :=
    fun isStatic => SuperContext.any_lower any_ident any_this (hp.kids _ _ none) hp.super hp.this
  have hfield : ∀ {s : Span} {isStatic : Bool} {ks : List Node}, MemberShape (mk s (.field isStatic) ks) →
      codeAny p name (ident parentName) (mk s (.field isStatic) ks) = (mk s (.field isStatic) ks).any p := by
    intro s isStatic ks h
    obtain ⟨hk, hv⟩ := fieldParts_is h
    rw [any_field h]
    cases isStatic with
    | false =>
      rw [codeAny, memberCode, any_cons, any_nil, Bool.or_false, ← any_initField hk]
      exact hlower false _ (is_initField is_this hk hv).1
    | true =>
      rw [codeAny, memberCode, any_cons, any_nil, Bool.or_false, any_defineStatic hk]
      congr 1
      exact SuperContext.any_lower any_ident any_ident (hp.kids _ _ (some name)) hp.super hp.this
        _ hv.1
  cases h with
  | @ctor s sb k ps stmts hk hps hb =>
    have hall : ((ps :: stmts).map (instanceContext (ident parentName)).lower).any (·.any p) =
        (ps :: stmts).any (·.any p) := by
      rw [any_map]
      refine any_congr_mem fun n hn => hlower false n ?_
      rcases mem_cons.mp hn with rfl | hn
      · exact hps.1
      · exact hb.1.kid hn
    rw [codeAny, memberCode, hall, any_mk]
    simp only [any_cons, any_leafKey hk, any_core (p := p) (s := sb) (t := .block) rfl,
      any_nil, Bool.or_false, Bool.false_or]
  | @method s sf kind isStatic a g k ps b hk hps hb =>
    have hfunc : (mk sf (.func a g) [ps, b]).WellFormed :=
      (is_of_roles (.cons hps (.cons hb .nil)) (r := .func) rfl rfl).1
    have hsame : p (mk sf (.func a g) ([ps, b].map (SuperContext.lower
        { parent := ident parentName, isStatic }))) = p (mk sf (.func a g) [ps, b]) :=
      hp.kids parentName isStatic none sf (.func a g) [ps, b] hfunc
    rw [codeAny, memberCode, any_cons, any_nil, Bool.or_false, any_defineMethod_func hk,
      any_mk _ s, any_mk _ sf, hsame]
    simp only [map_cons, map_nil, any_cons, any_nil, Bool.or_false, any_mk _ sf,
      hlower isStatic ps hps.1, hlower isStatic b hb.1]
  | field hk => rw [hfield (.field hk), Foreign.core (p := p) _ _ _ rfl, Bool.false_or]
  | fieldInit hk hv => rw [hfield (.fieldInit hk hv), Foreign.core (p := p) _ _ _ rfl, Bool.false_or]
  | empty =>
    rw [any_core rfl, Foreign.core (p := p) _ _ _ rfl]
    rfl

/-- **The call that builds a class holds what its parts hold**, where functions may be put in place of a
constructor. -/
theorem any_build_carried (hp : Carried p) (h : (mk s .cls (mk sm .members ms :: hs)).Is .cls)
    (hl : isLowerable (mk s .cls (mk sm .members ms :: hs)) = true) (name : String) (parent? : Option String) :
    ∃ rest, (build name parent? (mk s .cls (mk sm .members ms :: hs))).any p =
        (p (maker name parent? ms) || p (constructor (ident (parent?.getD "Object")) parent?.isSome
          (Parts.ofMembers ms)) || rest) ∧
      (mk s .cls (mk sm .members ms :: hs)).kids.any (·.any p) = (ms.any p || rest) := by
  refine ⟨_, any_build_functions h hl name parent?, ?_⟩
  have hmembers : ms.any (·.any p) =
      (ms.any p || ms.any (codeAny p name (ident (parent?.getD "Object")))) := by
    rw [any_congr_mem fun m hmem => any_member hp name (parent?.getD "Object")
      (memberShapes h hl m hmem)]
    clear h hl
    induction ms with
    | nil => rfl
    | cons m ms ih =>
      simp only [any_cons, ih]
      ac_rfl
  rw [kids_mk, any_cons, any_core rfl, hmembers, Bool.or_assoc]

/-- **The call that builds a class holds what its parts hold**, for a search that finds no function. -/
theorem any_build_eq_of_carried (hp : Carried p) (hf : ∀ s a g ks, p (mk s (.func a g) ks) = false)
    (hctor : ∀ s ks, p (mk s .ctor ks) = false) (h : cls.Is .cls) (hl : isLowerable cls = true) (name : String)
    (parent? : Option String) : (build name parent? cls).any p = cls.kids.any (·.any p) := by
  obtain ⟨s, sm, ms, hs, rfl, -⟩ := cls_shape h
  have hnone : ms.any p = false := by
    rw [any_eq_false]
    intro m hmem
    rw [Bool.not_eq_true]
    cases memberShapes h hl m hmem with
    | ctor => exact hctor ..
    | method | field | fieldInit | empty => exact Foreign.core _ _ _ rfl
  obtain ⟨rest, hbuild, hkids⟩ := any_build_carried hp h hl name parent?
  rw [hbuild, hkids, hnone, show p (maker name parent? ms) = false from hf ..,
    show p (constructor (ident (parent?.getD "Object")) parent?.isSome (Parts.ofMembers ms)) = false
      from hf ..]
  rfl

/-- **The call that builds a class holds what its parts hold**, for a search for other syntax. -/
theorem any_build_eq (hp : Apart p) (h : cls.Is .cls) (hl : isLowerable cls = true) (name : String)
    (parent? : Option String) : (build name parent? cls).any p = cls.kids.any (·.any p) :=
  any_build_eq_of_carried hp.carried hp.func hp.ctor h hl name parent?

end Frame

/-! ## What a pass keeps of classes -/

/-- What a node and its result have in common after a pass. -/
structure Kept (n n' : Node) : Prop where
  is : n'.Is n.role
  member : n.role.isMember = true → shape n' = shape n
  members : n.role = .members → n'.kids.map shape = n.kids.map shape
  cls : n.role = .cls → isLowerable n' = isLowerable n

lemma Kept.trans {a b c : Node} (h : Kept a b) (h' : Kept b c) : Kept a c := by
  obtain ⟨hw, hr⟩ := h.is
  refine ⟨hr ▸ h'.is, fun ha => ?_, fun ha => ?_, fun ha => ?_⟩
  · exact (h'.member (hr ▸ ha)).trans (h.member ha)
  · exact (h'.members (hr.trans ha)).trans (h.members ha)
  · exact (h'.cls (hr.trans ha)).trans (h.cls ha)

/-- A node whose children are replaced keeps all that depends on them. -/
lemma kept_mk (hks : Forall₂ Kept ks ks') (h : (mk s t ks).WellFormed) : Kept (mk s t ks) (mk s t ks') := by
  have hroles : ks'.map role = ks.map role := map_eq_of_forall₂ hks fun k k' hk => hk.is.2
  have hw : (mk s t ks').WellFormed := h.of_roles hroles (forall_of_forall₂ hks fun k k' hk => hk.is.1)
  refine ⟨⟨hw, rfl⟩, fun _ => ?_, fun ht => ?_, fun ht => ?_⟩
  · simp only [shape, role_mk, kids_mk, hroles]
  · obtain rfl : t = .members := Tag.eq_of_role (by rw [show t.role = .members from ht]; rfl)
    have hshape : Forall₂ (fun k k' => shape k' = shape k) ks ks' := by
      have hmember : ∀ k ∈ ks, k.role.isMember = true := fun k hk => (isMember_of_mem h hk).2
      clear hroles hw h ht
      induction hks with
      | nil => exact .nil
      | cons hk _ ih =>
        exact .cons (hk.member (hmember _ (by simp))) (ih fun k hk => hmember k (by simp [hk]))
    exact map_eq_of_forall₂ hshape fun k k' hk => hk
  · obtain rfl : t = .cls := Tag.eq_of_role (by rw [show t.role = .cls from ht]; rfl)
    obtain ⟨_, sm, ms, hs, ⟨⟩, -⟩ := cls_shape ⟨h, rfl⟩
    cases hks with
    | cons hk _ =>
      refine isLowerable_congr ?_
      rw [head?_cons, head?_cons, Option.map_some, Option.map_some]
      exact congrArg some (hk.members rfl)

/-- A node outside of classes need only keep its role. -/
lemma kept_of_is {n n' : Node} (h : n'.Is n.role) (hp : n.role.isClassPart = false)
    (hc : n.role ≠ .cls) : Kept n n' := by
  rw [Role.isClassPart, Bool.or_eq_false_iff, beq_eq_false_iff_ne] at hp
  refine ⟨h, fun hmem => ?_, fun hr => absurd hr hp.2, fun hr => absurd hr hc⟩
  rw [hp.1] at hmem
  cases hmem

/-- Whether a node defines a class that is lowered. -/
def isLowered : Node → Bool
  | .mk _ (.classDecl _) [cls] => isLowerable cls
  | .mk _ (.classExpr _) [cls] => isLowerable cls
  | _ => false

/-- The definition of a class is lowered or not whatever is lowered in it. -/
lemma isLowered_congr (hks : Forall₂ Kept ks ks') (h : (mk s t ks).WellFormed) :
    isLowered (mk s t ks') = isLowered (mk s t ks) := by
  have hcls : ∀ {cls : Node}, ks = [cls] → cls.Is .cls →
      ∃ cls', ks' = [cls'] ∧ isLowerable cls' = isLowerable cls := by
    rintro cls rfl hcls
    cases hks with
    | cons hk hnil =>
      cases hnil
      exact ⟨_, rfl, hk.cls hcls.2⟩
  cases t with
  | classDecl i | classExpr i =>
    obtain ⟨cls, rfl, hc⟩ := h.single rfl
    obtain ⟨cls', rfl, he⟩ := hcls rfl hc
    exact he
  | _ => rfl

instance : Foreign isLowered where
  core s t ks ht := by
    cases t <;> first | rfl | cases ht
  this := rfl

/-- Code in a context stays in it, so a class definition is lowered or not as before. -/
lemma apart_isLowered : Apart isLowered where
  func _ _ _ _ := rfl
  ctor _ _ := rfl
  super n hn := by
    obtain ⟨s, t, ks⟩ := n
    cases t <;> first | rfl | cases hn
  this n hn := by
    obtain ⟨s, t, ks⟩ := n
    obtain rfl : t = .this := hn
    rfl
  kids c s t ks h := by
    cases t with
    | classDecl i | classExpr i =>
      obtain ⟨cls, rfl, hc⟩ := h.single rfl
      rw [map_cons, map_nil, lower_cls hc.2]
    | _ => rfl

end EcmaLower.Class
