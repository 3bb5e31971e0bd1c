import EcmaLower.Proofs.Alike
import EcmaLower.Proofs.ClassMakers

/-!
# The statements of a class

The function that makes a class has one statement for each of its members, in the order of the source,
between the constructor and the `return` of the class. This module says what each statement does, so that
it can be read without the code that writes it, and compares it with the member of the source.

A constructor keeps its statements, with the fields initialized somewhere between them, and its directives
stay at its start. A function that does not use `super` is carried over as it is.

## Main results

* `SuperContext.lower_eq_self_of_ownUse` — code that does not use `super` stays as it is.
* `Class.isConstructor` — the constructor keeps its statements.
-/

namespace EcmaLower

open Node List Build SuperContext

variable {n n' : Node} {c : SuperContext} {stmts l new stmts' : List Node}

/-! ## Code without `super` -/

/-- **Code that does not use `super` stays as it is**, where `this` does. -/
lemma SuperContext.lower_eq_self_of_ownUse (hr : c.receiver? = none) (n : Node)
    (h : n.ownUse Tag.isSuper = false) : c.lower n = n := by
  induction n using induct_within with
  | h s t ks ih =>
    rw [ownUse_mk, Bool.or_eq_false_iff, any_eq_false] at h
    have hsharing : t.sharing ks = ks ∨ use (Node.mk s t ks) = .closed := by
      cases t <;> first | exact .inl rfl | exact .inr rfl
    have hshape := use_shape (Node.mk s t ks)
    rw [lower_eq]
    generalize use (Node.mk s t ks) = u at hshape hsharing
    cases hshape with
    | closed => rfl
    | call => cases h.1
    | methodCall | store => exact absurd (by rw [ownUse_mk]; rfl) (h.2 _ (mem_cons_self ..))
    | read => cases h.1
    | this =>
      rw [hr]
      refine congrArg (Node.mk s .this) ((map_congr_left fun k hk => ?_).trans (map_id ks))
      exact ih k hk k .refl (by simpa using h.2 k hk)
    | plain =>
      obtain hsame | hclosed := hsharing
      · refine congrArg (Node.mk s t) ((map_congr_left fun k hk => ?_).trans (map_id ks))
        exact ih k hk k .refl (by simpa using h.2 k (hsame.symm ▸ hk))
      · cases hclosed

/-- A node keeps its tag, or becomes a call, a property, a store or an operation. -/
lemma SuperContext.tag_lower (hr : c.receiver? = none) (n : Node) :
    (c.lower n).tag = n.tag ∨ (c.lower n).tag = .call ∨ (c.lower n).tag = .member ∨
      (c.lower n).tag = .assign .plain ∨ ∃ op, (c.lower n).tag = .binary op := by
  have hcall : ∀ f r args, (callOn f r args).tag = .call := by
    intro f r args
    unfold callOn
    split <;> rfl
  have hshape := use_shape n
  rw [lower_eq]
  generalize use n = u at hshape
  cases hshape with
  | closed => exact .inl rfl
  | call | methodCall => exact .inr (.inl (hcall _ _ _))
  | store =>
    dsimp only
    unfold store
    split
    · exact .inr (.inr (.inr (.inl rfl)))
    · split
      · exact .inr (.inr (.inr (.inr ⟨_, rfl⟩)))
      · exact .inr (.inr (.inr (.inl rfl)))
  | read => exact .inr (.inr (.inl rfl))
  | this =>
    rw [hr]
    exact .inl rfl
  | plain => exact .inl rfl

namespace Class

variable {known : List String}

lemma ownUse_build {s : Span} {t : Tag} {cls : Node} (h : cls.Is .cls) (ht : t.isUse Tag.isSuper [cls] = false)
    (hs : t.sharing [cls] = [cls]) (name : String) (parent? : Option String) :
    (build name parent? cls).ownUse Tag.isSuper = (mk s t [cls]).ownUse Tag.isSuper := by
  obtain ⟨sc, sm, ms, hs', rfl, -, -, hlen⟩ := cls_shape h
  have hcls : (mk s t [mk sc .cls (mk sm .members ms :: hs')]).ownUse Tag.isSuper =
      hs'.any (·.ownUse Tag.isSuper) := by
    rw [ownUse_mk, ht, hs, Bool.false_or, any_cons, any_nil, Bool.or_false, ownUse_mk]
    rfl
  rw [hcls]
  match hs', hlen with
  | [], _ | [e], _ => rfl

/-- **Lowering keeps whether code uses `super`.** -/
lemma Lowers.ownUse (hL : Lowers known n n') (h : n.WellFormed) (hp : n.role.isClassPart = false) :
    n'.ownUse Tag.isSuper = n.ownUse Tag.isSuper := by
  induction n generalizing n' with
  | mk s t ks ih =>
    cases hL with
    | @node _ _ _ ks' _ _ _ hks hkept hR _ =>
      have hw : (mk s t ks').WellFormed := (kept_mk hkept h).is.1
      have hkids : (mk s t ks').ownUse Tag.isSuper = (mk s t ks).ownUse Tag.isSuper :=
        ownUse_congr (forall₂_imp_mem hks fun k hk k' hL hp => ih k hk hL (h.kid hk) hp) h hp
      rw [← hkids]
      cases hR with
      | keep => rfl
      | @decl _ i cls parent? =>
        rw [← ownUse_build (cls_of_def hw (.inl ⟨i, rfl⟩)) rfl rfl i.name parent?]
        simp [var, declarator, make, ownUse_mk, Tag.sharing, Tag.isUse, Tag.isSuper, binding]
      | named | anonymous => exact ownUse_build (cls_of_def hw (.inr ⟨_, rfl⟩)) rfl rfl _ _

/-! ## Directives -/

lemma isDirective_iff : isDirective n = true ↔ ∃ s sv v ks, n = mk s .exprStmt [mk sv (.str v) ks] := by
  obtain ⟨s, t, ks⟩ := n
  constructor
  · intro h
    unfold isDirective directive? at h
    split at h
    · rename_i htag hkids
      exact ⟨s, _, _, _, by rw [show t = .exprStmt from htag, show ks = [_] from hkids]⟩
    · cases h
  · rintro ⟨_, _, _, _, h⟩
    rw [h]
    rfl

/-- A directive stays, and no other statement becomes one. -/
def KeepsDirective (n n' : Node) : Prop := isDirective n' = isDirective n ∧ (isDirective n = true → n' = n)

lemma keepsDirective_of_iff (h : isDirective n = true → n' = n)
    (h' : isDirective n' = true → isDirective n = true) : KeepsDirective n n' := by
  refine ⟨Bool.eq_iff_iff.mpr ⟨h', fun hd => ?_⟩, h⟩
  rw [h hd]
  exact hd

lemma Lowers.keepsDirective (hL : Lowers known n n') (h : n.WellFormed) : KeepsDirective n n' := by
  refine keepsDirective_of_iff (fun hd => ?_) fun hd => ?_
  · obtain ⟨s, sv, v, ks, rfl⟩ := isDirective_iff.mp hd
    obtain ⟨_, rfl, hks⟩ := hL.keep h rfl
    obtain ⟨e', _, he, hnil, rfl⟩ := forall₂_cons_left_iff.mp hks
    cases hnil
    have hstr : (mk sv (.str v) ks).WellFormed := h.kid (by simp)
    obtain rfl : ks = [] := hstr.leaf rfl
    obtain ⟨_, rfl, hnil⟩ := he.keep hstr rfl
    cases hnil
    rfl
  · obtain ⟨s, sv, v, ks, rfl⟩ := isDirective_iff.mp hd
    cases hL with
    | node hks _ hR _ =>
      cases hR with
      | keep =>
        obtain ⟨e, _, he, hnil, rfl⟩ := forall₂_cons_right_iff.mp hks
        cases hnil
        cases he with
        | node _ _ hRe _ =>
          cases hRe with
          | keep => exact isDirective_iff.mpr ⟨_, _, _, _, rfl⟩

lemma keepsDirective_lower (c : SuperContext) (hr : c.receiver? = none) (h : n.WellFormed) :
    KeepsDirective n (c.lower n) := by
  refine keepsDirective_of_iff (fun hd => ?_) fun hd => ?_
  · obtain ⟨s, sv, v, ks, rfl⟩ := isDirective_iff.mp hd
    have hstr : (mk sv (.str v) ks).WellFormed := h.kid (by simp)
    obtain rfl : ks = [] := hstr.leaf rfl
    exact lower_eq_self_of_ownUse hr _ rfl
  · obtain ⟨s, sv, v, ks', heq⟩ := isDirective_iff.mp hd
    have htag : n.tag = .exprStmt := by
      have := tag_lower hr n
      simpa [heq, eq_comm] using this
    obtain ⟨sn, t, ks⟩ := n
    obtain rfl : t = .exprStmt := htag
    obtain ⟨e, rfl, -⟩ := h.single rfl
    rw [lower_plain rfl] at heq
    obtain ⟨-, -, he⟩ := Node.mk.inj heq
    have hstr : e.tag = .str v := by
      have := tag_lower hr e
      simpa [cons.inj he, eq_comm] using this
    obtain ⟨se, te, eks⟩ := e
    obtain rfl : te = .str v := hstr
    exact isDirective_iff.mpr ⟨_, _, _, _, rfl⟩

lemma takeWhile_eq_of_forall₂ (h : Forall₂ KeepsDirective stmts stmts') :
    stmts'.takeWhile isDirective = stmts.takeWhile isDirective := by
  induction h with
  | nil => rfl
  | cons hk _ ih =>
    rw [takeWhile_cons, takeWhile_cons, hk.1, ih]
    split
    · rename_i hd
      rw [hk.2 hd]
    · rfl

/-- What is inserted behind the directives does not change them. -/
lemma takeWhile_insertAt {n : Nat} (hnew : ∀ k ∈ new, isDirective k = false)
    (hn : (l.takeWhile isDirective).length ≤ n) :
    (insertAt n new l).takeWhile isDirective = l.takeWhile isDirective := by
  have hstop : ∀ rest : List Node, rest.takeWhile isDirective = [] → (new ++ rest).takeWhile isDirective = [] := by
    intro rest hrest
    cases new with
    | nil => exact hrest
    | cons k new => rw [cons_append, takeWhile_cons, hnew k (by simp)]; rfl
  induction l generalizing n with
  | nil => simpa [insertAt] using hstop [] rfl
  | cons a l ih =>
    rw [takeWhile_cons] at hn ⊢
    cases n with
    | zero =>
      split at hn
      · cases hn
      · rename_i ha
        rw [if_neg ha]
        exact hstop (a :: l) (by rw [takeWhile_cons, if_neg ha])
    | succ n =>
      have hcons : insertAt (n + 1) new (a :: l) = a :: insertAt n new l := rfl
      rw [hcons, takeWhile_cons]
      split
      · rename_i ha
        rw [if_pos ha, length_cons, Nat.succ_le_succ_iff] at hn
        rw [ih hn]
      · rfl

lemma isDirective_of_lt {i : Nat} {st : Node} (h : stmts[i]? = some st)
    (hi : i < (stmts.takeWhile isDirective).length) : isDirective st = true := by
  obtain ⟨hlt, rfl⟩ := List.getElem?_eq_some_iff.mp h
  have hmem := List.getElem_mem hi
  rw [List.IsPrefix.getElem (List.takeWhile_prefix isDirective) hi] at hmem
  exact List.all_eq_true.mp List.all_takeWhile _ hmem

/-- The fields are initialized behind the directives. -/
lemma length_le_fieldsIndex (stmts : List Node) : (stmts.takeWhile isDirective).length ≤ fieldsIndex stmts := by
  unfold fieldsIndex
  split
  · rename_i i hi
    obtain ⟨hlt, hsuper, -⟩ := findIdx?_eq_some_iff_getElem.mp hi
    by_contra hle
    have hdirective := isDirective_of_lt (getElem?_eq_getElem hlt) (by omega)
    obtain ⟨s, sv, v, ks, heq⟩ := isDirective_iff.mp hdirective
    rw [heq] at hsuper
    cases hsuper
  · exact le_rfl

/-! ## What statements do -/

/-- What a key stands for. -/
inductive PropertyKey
  | text (value : Units)
  | number (value : NumLit)
  | bigInt (raw : String)
  | computed (e : Node)

/-- The key that an expression in brackets stands for. -/
def PropertyKey.ofExpr : Node → PropertyKey
  | .mk _ (.str s) _ => .text s.value
  | .mk _ (.num n) _ => .number n
  | .mk _ (.bigInt raw) _ => .bigInt raw
  | e => .computed e

/-- The key that the key of a member or behind an object stands for. -/
def PropertyKey.of : Node → PropertyKey
  | .mk _ (.keyName x) _ => .text (Units.ofString x)
  | .mk _ (.keyStr s) _ => .text s.value
  | .mk _ (.keyNum n) _ => .number n
  | .mk _ (.keyBigInt raw) _ => .bigInt raw
  | .mk _ .keyComputed [e] => .ofExpr e
  | e => .computed e

lemma PropertyKey.of_keyAsMember {k : Node} (h : k.OfRole Role.isPublicKey) : of (keyAsMember k) = of k := by
  cases keyShape h <;> rfl

lemma PropertyKey.ofExpr_keyAsExpr {k : Node} (h : k.OfRole Role.isPublicKey) : ofExpr (keyAsExpr k) = of k := by
  cases keyShape h <;> rfl

/-- `Puts object key value kind st`: the statement `st` puts a value under a key of an object, or defines
an accessor there. -/
inductive Puts (object : Node) : PropertyKey → Node → MethodKind → Node → Prop
  /-- `object.k = value;` -/
  | value {k v : Node} : Puts object (.of k) v .method (Build.exprStmt (Build.assign (Build.access object k) v))
  /-- `Object.defineProperty(object, k, { get: f, configurable: true });` -/
  | getter {k f : Node} : Puts object (.ofExpr k) f .getter (Build.exprStmt (Build.call
    (Build.path ["Object", "defineProperty"])
    [object, k, Build.object [("get", f), ("configurable", Build.boolLit true)]]))
  /-- `Object.defineProperty(object, k, { set: f, configurable: true });` -/
  | setter {k f : Node} : Puts object (.ofExpr k) f .setter (Build.exprStmt (Build.call
    (Build.path ["Object", "defineProperty"])
    [object, k, Build.object [("set", f), ("configurable", Build.boolLit true)]]))

/-- What a member is put on: the class if it is static, else the prototype of the class. -/
def ownerOf (name : String) (isStatic : Bool) : Node :=
  if isStatic then ident name else member (ident name) "prototype"

/-- A node with the classes in it lowered, and then its `super`. -/
def Rewritten (known : List String) (c : SuperContext) (n n' : Node) : Prop := ∃ m, Lowers known n m ∧ n' = c.lower m

/-- The statement `st` defines the method or accessor `m`. Its function keeps its parts, and is carried over
if it does not use `super`: then only the classes in it are lowered. -/
def IsDefinition (known : List String) (name : String) (parent m st : Node) : Prop :=
  ∃ (s sf : Span) (kind : MethodKind) (isStatic : Bool) (tf : Tag) (key key' : Node)
    (parts parts' : List Node), m = mk s (.method kind isStatic) [key, mk sf tf parts] ∧
    Lowers known key key' ∧ Forall₂ (Rewritten known (contextOf name parent m)) parts parts' ∧
    Puts (ownerOf name isStatic) (.of key') (funcExpr (mk sf tf parts')) kind st ∧
    (usesSuper parts = false → Forall₂ (Lowers known) parts parts') ∧
    (usesSuper parts = false → parts.any (·.any isLowered) = false → parts' = parts)

/-- The statement `st` initializes the field `m` of the object `owner`, to `void 0` if it has no initializer.
The key of a static field is evaluated outside of its initializer, that of another one is not. -/
def IsInitializer (known : List String) (name : String) (owner parent m st : Node) : Prop :=
  ∃ (s : Span) (isStatic : Bool) (key key' : Node) (v v' : List Node),
    m = mk s (.field isStatic) (key :: v) ∧ Lowers known key key' ∧
    Forall₂ (Rewritten known (contextOf name parent m)) v v' ∧
    Puts owner (.of (if isStatic then key' else (contextOf name parent m).lower key'))
      (v'.head?.getD undefined) .method st

/-- The statements and parameters of a constructor, with the constructor that they come from. Without one,
the arguments are passed on to the parent if there is one. -/
inductive KeepsCode (known : List String) (parent : Node) (derived : Bool) :
    List Node → Node → List Node → List Node → Prop
  | explicit {s sb : Span} {key ps params : Node} {stmts own body : List Node} :
    Rewritten known (instanceContext parent) ps params →
    Forall₂ (Rewritten known (instanceContext parent)) stmts own →
    body.takeWhile isDirective = stmts.takeWhile isDirective →
    KeepsCode known parent derived [mk s .ctor [key, ps, mk sb .block stmts]] params own body
  | implicit {body : List Node} : KeepsCode known parent derived [] (params [])
    (if derived then [exprStmt (call (member parent "apply")
      [this, ident "arguments"])] else []) body

/-- The function `f` is the constructor of a class with members `ms`: between its own statements, all fields
are initialized in a row. -/
def IsConstructor (known : List String) (name : String) (parent : Node) (derived : Bool) (ms : List Node)
    (f : Node) : Prop := ∃ (params : Node) (before inits after : List Node),
  f = make (.func false false) [params, block (before ++ inits ++ after)] ∧
  Forall₂ (IsInitializer known name this parent) (ms.filter (·.tag == .field false)) inits ∧
  KeepsCode known parent derived (ms.filter (·.tag == .ctor)) params (before ++ after)
    (before ++ inits ++ after)

/-- The two statements that link a class to its parent: they set the prototype of the class, unless the
parent is `null`, and create the prototype of its instances. -/
def IsLink (name parentName : String) (links : List Node) : Prop :=
  ∃ (link st : Node) (args : List Node), links = [ifStmt (binary .strictNotEq
      (ident parentName) nullLit) (block [link]) none, st] ∧
    (call (path ["Object", "setPrototypeOf"])
      [ident name, ident parentName]).Within link ∧
    Puts (ident name) (.text (Units.ofString "prototype"))
      (call (path ["Object", "create"]) args) .method st

/-- Whether a member is a method or an accessor. -/
def isMethod (m : Node) : Bool :=
  match m.tag with
  | .method .. => true
  | _ => false

/-- The statements `body` make a class with members `ms` under a name: the constructor, the links to the
parent if there is one, each method and each static field in order, and the result. -/
def IsClassBody (known : List String) (ms : List Node) (name : String) (parent? : Option String)
    (body : List Node) : Prop := ∃ (ctor : Node) (links defs inits : List Node),
  body = [useStrict, funcDecl name ctor] ++ (links ++ (defs ++ (inits ++ [returnStmt (ident name)]))) ∧
  IsConstructor known name (parentIdent parent?) parent?.isSome ms ctor ∧
  (parent? = none ∧ links = [] ∨ ∃ y, parent? = some y ∧ IsLink name y links) ∧
  Forall₂ (IsDefinition known name (parentIdent parent?)) (ms.filter isMethod) defs ∧
  Forall₂ (IsInitializer known name (ident name) (parentIdent parent?))
    (ms.filter (·.tag == .field true)) inits

/-! ## Members and their statements -/

/-- Where there is no class to lower, nothing changes. -/
lemma Lowers.eq_self (hL : Lowers known n n') (h : n.WellFormed) (hno : n.any isLowered = false) : n' = n := by
  induction n generalizing n' with
  | mk s t ks ih =>
    rw [any_mk, Bool.or_eq_false_iff, any_eq_false] at hno
    obtain ⟨ks', rfl, hks⟩ := hL.keep h hno.1
    have hsame : Forall₂ (fun k k' => k' = k) ks ks' :=
      forall₂_imp_mem hks fun k hk k' hL => ih k hk hL (h.kid hk) (by simpa using hno.2 k hk)
    have hmap := map_eq_of_forall₂ (f := id) hsame fun _ _ hk => hk
    rw [map_id', map_id] at hmap
    rw [hmap]

lemma Lowers.wellFormed (hL : Lowers known n n') (h : n.WellFormed) : n'.WellFormed := by
  cases hL with
  | node _ hkept hR _ => exact (hR.ruled.is (kept_mk hkept h).is.1).1

/-- No class to lower is left. -/
lemma Lowers.not_isLowered (hL : Lowers known n n') (h : n.WellFormed) : n'.any isLowered = false := by
  induction n generalizing n' with
  | mk s t ks ih =>
    cases hL with
    | node hks hkept hR _ =>
      refine hR.ruled.not_isLowered (kept_mk hkept h).is.1 ?_
      exact forall_of_forall₂ (forall₂_imp_mem hks fun k hk k' hL => ih k hk hL (h.kid hk)) fun _ _ h => h

/-- The parts of a function that does not use `super`. -/
lemma carried_over (hr : c.receiver? = none) {parts parts' : List Node} (hparts : Forall₂ (Lowers known) parts parts')
    (hw : ∀ k ∈ parts, k.WellFormed ∧ k.role.isClassPart = false) (h : usesSuper parts = false) :
    parts'.map c.lower = parts' := by
  rw [usesSuper, any_eq_false] at h
  have hself : Forall₂ (fun _ k' => c.lower k' = k') parts parts' := by
    refine forall₂_imp_mem hparts fun k hk k' hL => lower_eq_self_of_ownUse hr k' ?_
    rw [hL.ownUse (hw k hk).1 (hw k hk).2]
    simpa using h k hk
  have hall := forall_of_forall₂ hself fun _ _ hk => hk
  exact (map_congr_left fun k hk => hall k hk).trans (map_id parts')

lemma forall₂_map_lower {l' : List Node} (h : Forall₂ (Lowers known) l l') :
    Forall₂ (Rewritten known c) l (l'.map c.lower) := by
  rw [forall₂_map_right_iff]
  exact h.imp fun k k' hk => ⟨k', hk, rfl⟩

section Statements

variable {name : String} {parent m m' : Node} (hm : LoweredMember known m m')

include hm in
lemma isDefinition_defineMethod (ht : isMethod m = true) :
    IsDefinition known name parent m (defineMethod name parent m') := by
  obtain ⟨hm, hw, hL, hm'⟩ : MemberShape m ∧ m.WellFormed ∧ Lowers known m m' ∧ MemberShape m' :=
    ⟨hm.shape, hm.wellFormed, hm.lowers, hm.shape'⟩
  cases hm with
  | @method s sf kind isStatic a g k p b hk hp hb =>
    obtain ⟨_, rfl, hks⟩ := hL.keep hw rfl
    obtain ⟨k', _, hkL, hrest, rfl⟩ := forall₂_cons_left_iff.mp hks
    obtain ⟨f', _, hfL, hnil, rfl⟩ := forall₂_cons_left_iff.mp hrest
    cases hnil
    have hfw : (mk sf (.func a g) [p, b]).WellFormed := hw.kid (by simp)
    obtain ⟨parts', rfl, hparts⟩ := hfL.keep hfw rfl
    have hk' : k'.OfRole Role.isPublicKey := by
      cases hm' with
      | method hk => exact hk
    set c : SuperContext := { parent, isStatic } with hc
    have hcarried : usesSuper [p, b] = false → parts'.map c.lower = parts' := by
      refine carried_over rfl hparts fun n hn => ?_
      simp only [mem_cons, not_mem_nil, or_false] at hn
      rcases hn with rfl | rfl
      · exact ⟨hp.1, by rw [hp.2]; rfl⟩
      · exact ⟨hb.1, by rw [hb.2]; rfl⟩
    refine ⟨s, sf, kind, isStatic, .func a g, k, k', [p, b], parts'.map c.lower, rfl, hkL,
      forall₂_map_lower hparts, ?_, fun hu => ?_, fun hu hno => ?_⟩
    · cases kind with
      | method =>
        rw [← PropertyKey.of_keyAsMember hk']
        exact .value
      | getter =>
        rw [← PropertyKey.ofExpr_keyAsExpr hk']
        exact .getter
      | setter =>
        rw [← PropertyKey.ofExpr_keyAsExpr hk']
        exact .setter
    · rw [hcarried hu]
      exact hparts
    · have hsame := hfL.eq_self hfw (by rw [any_mk, hno]; rfl)
      rw [hcarried hu]
      exact (Node.mk.inj hsame).2.2
  | ctor | field | fieldInit | empty => cases ht

include hm in
/-- The parts of a field: its key, and its value if it has one. -/
lemma field_parts {isStatic : Bool} (ht : m.tag = .field isStatic) :
    ∃ s k k' v v', m = mk s (.field isStatic) (k :: v) ∧ m' = mk s (.field isStatic) (k' :: v') ∧
      Lowers known k k' ∧ Forall₂ (Lowers known) v v' ∧ k'.OfRole Role.isPublicKey ∧
      v'.length ≤ 1 ∧ fieldParts m' = (k', v'.head?.getD undefined) := by
  obtain ⟨hm, hw, hL, hm'⟩ : MemberShape m ∧ m.WellFormed ∧ Lowers known m m' ∧ MemberShape m' :=
    ⟨hm.shape, hm.wellFormed, hm.lowers, hm.shape'⟩
  have hkeep : ∀ {s k v}, m = mk s (.field isStatic) (k :: v) → ∃ k' v',
      m' = mk s (.field isStatic) (k' :: v') ∧ Lowers known k k' ∧ Forall₂ (Lowers known) v v' := by
    rintro s k v rfl
    obtain ⟨_, rfl, hks⟩ := hL.keep hw rfl
    obtain ⟨k', v', hkL, hvL, rfl⟩ := forall₂_cons_left_iff.mp hks
    exact ⟨k', v', rfl, hkL, hvL⟩
  obtain ⟨s, k, v, rfl⟩ : ∃ s k v, m = mk s (.field isStatic) (k :: v) := by
    cases hm with
    | field | fieldInit => cases ht; exact ⟨_, _, _, rfl⟩
    | ctor | method | empty => cases ht
  obtain ⟨k', v', rfl, hkL, hvL⟩ := hkeep rfl
  refine ⟨s, k, k', v, v', rfl, rfl, hkL, hvL, ?_⟩
  cases hm' with
  | field hk => exact ⟨hk, Nat.zero_le 1, rfl⟩
  | fieldInit hk => exact ⟨hk, le_rfl, rfl⟩

lemma lower_head? (c : SuperContext) (v : List Node) :
    c.lower (v.head?.getD undefined) = (v.map c.lower).head?.getD undefined := by
  cases v with
  | nil => exact lower_undefined
  | cons => rfl

/-- A key behind an object is rewritten as the key of a member is. -/
lemma PropertyKey.of_lower_keyAsMember {k : Node} (h : k.OfRole Role.isPublicKey) (c : SuperContext) :
    of (c.lower (keyAsMember k)) = of (c.lower k) := by
  cases keyShape h with
  | name | computed => rfl
  | str | num | bigInt =>
    rw [keyAsMember, lower_computedKey, lower_leaf rfl, lower_leaf rfl]
    rfl

include hm in
lemma isInitializer_initField (ht : m.tag = .field false) : IsInitializer known name this parent m
      ((instanceContext parent).lower (initField this m')) := by
  obtain ⟨s, k, k', v, v', rfl, rfl, hkL, hvL, hk', -, hparts⟩ := field_parts hm ht
  refine ⟨s, false, k, k', v, v'.map (instanceContext parent).lower, rfl, hkL, forall₂_map_lower hvL, ?_⟩
  rw [lower_initField, hparts, ← lower_head?, if_neg (by simp),
    ← PropertyKey.of_lower_keyAsMember hk']
  exact .value

include hm in
lemma isInitializer_defineStatic (ht : m.tag = .field true) :
    IsInitializer known name (ident name) parent m (defineStatic name parent m') := by
  obtain ⟨s, k, k', v, v', rfl, rfl, hkL, hvL, hk', -, hparts⟩ := field_parts hm ht
  refine ⟨s, true, k, k', v, v'.map (staticContext name parent).lower, rfl, hkL, forall₂_map_lower hvL, ?_⟩
  rw [← lower_head?, if_pos rfl, ← PropertyKey.of_keyAsMember hk', defineStatic, hparts]
  exact .value

end Statements

/-! ## The function that makes a class -/

lemma map_insertAt {n : Nat} (f : Node → Node) : (insertAt n new l).map f = insertAt n (new.map f) (l.map f) := by
  simp only [insertAt, map_append, map_take, map_drop]

/-- The statements that initialize the given fields of an instance. -/
def fieldInits (parent : Node) (fields : List Node) : List Node :=
  (fields.map (initField this)).map (instanceContext parent).lower

/-- The call of the parent that a derived class without a constructor makes. -/
def parentCalls (parent : Node) (derived : Bool) : List Node :=
  if derived then [exprStmt (call (member parent "apply")
    [this, ident "arguments"])] else []

section Body

variable {name : String} {sm : Span} {ms ms' : List Node} (hw : (mk sm .members ms).WellFormed)
  (hL : Forall₂ (LoweredMember known) ms ms')

include hL in
/-- The statements that initialize the fields, in order. -/
lemma isInitializer_fields (name : String) (parent : Node) :
    Forall₂ (IsInitializer known name this parent) (ms.filter (·.tag == .field false))
      (fieldInits parent (Parts.ofMembers ms').fields) := by
  rw [fieldInits, map_map, forall₂_map_right_iff]
  exact (forall₂_filter hL (· == .field false)).imp fun m m' hm =>
    isInitializer_initField hm.1 (beq_iff_eq.mp hm.2)

include hw hL in
/-- The constructor of a class, if it has one. -/
lemma ctor_cases : (ms.filter (·.tag == .ctor) = [] ∧ (Parts.ofMembers ms').ctor? = none) ∨
    ∃ s sb sb' key key' ps ps' stmts stmts', ms.filter (·.tag == .ctor) = [mk s .ctor [key, ps, mk sb .block stmts]] ∧
      (Parts.ofMembers ms').ctor? = some (mk s .ctor [key', ps', mk sb' .block stmts']) ∧
      Lowers known ps ps' ∧ Forall₂ (Lowers known) stmts stmts' ∧
      ps.WellFormed ∧ (∀ st ∈ stmts, st.WellFormed) := by
  have hctors := forall₂_filter hL (· == .ctor)
  have hlen := ctor_length hw
  unfold Parts.ofMembers
  simp only
  generalize ms.filter (·.tag == .ctor) = l, ms'.filter (·.tag == .ctor) = l' at hctors hlen
  cases hctors with
  | nil => exact .inl ⟨rfl, rfl⟩
  | @cons m m' l l' hm hnil =>
    obtain rfl : l = [] := length_eq_zero_iff.mp (by simpa using hlen)
    cases hnil
    obtain ⟨⟨hshape, hmw, hmL⟩, htag⟩ := hm
    cases hshape with
    | @ctor s sb key ps stmts hk hps hb =>
      obtain ⟨_, rfl, hks⟩ := hmL.keep hmw rfl
      obtain ⟨key', _, -, hparts, rfl⟩ := forall₂_cons_left_iff.mp hks
      obtain ⟨ps', _, hpsL, hblock, rfl⟩ := forall₂_cons_left_iff.mp hparts
      obtain ⟨b', _, hbL, hnil, rfl⟩ := forall₂_cons_left_iff.mp hblock
      cases hnil
      obtain ⟨stmts', rfl, hstmts⟩ := hbL.keep hb.1 rfl
      exact .inr ⟨s, sb, sb, key, key', ps, ps', stmts, stmts', rfl, rfl, hpsL, hstmts, hps.1,
        fun st hst => hb.1.kid hst⟩
    | method | field | fieldInit | empty => cases htag

/-- **The directives stay at the start** of the body of a constructor. -/
lemma takeWhile_constructor (parent : Node) {fields : List Node} (hstmts : Forall₂ (Lowers known) stmts stmts')
    (hsw : ∀ st ∈ stmts, st.WellFormed) : (insertAt (fieldsIndex stmts') (fieldInits parent fields)
      (stmts'.map (instanceContext parent).lower)).takeWhile isDirective =
      stmts.takeWhile isDirective := by
  set c := instanceContext parent
  have hlowered : stmts'.takeWhile isDirective = stmts.takeWhile isDirective :=
    takeWhile_eq_of_forall₂ (forall₂_imp_mem hstmts fun st hst st' hL => hL.keepsDirective (hsw st hst))
  have hw' : ∀ st ∈ stmts', st.WellFormed :=
    forall_of_forall₂ (forall₂_imp_mem hstmts fun st hst st' hL => hL.wellFormed (hsw st hst))
      fun _ _ h => h
  have hrewritten : (stmts'.map c.lower).takeWhile isDirective = stmts'.takeWhile isDirective := by
    refine takeWhile_eq_of_forall₂ (forall₂_map_right_iff.mpr (forall₂_same.mpr fun st hst => ?_))
    exact keepsDirective_lower c rfl (hw' st hst)
  rw [takeWhile_insertAt ?_ (by rw [hrewritten]; exact length_le_fieldsIndex stmts'), hrewritten, hlowered]
  intro st hst
  obtain ⟨_, hmem, rfl⟩ := mem_map.mp hst
  obtain ⟨m, -, rfl⟩ := mem_map.mp hmem
  rw [lower_initField]
  rfl

/-- A class without a constructor. -/
lemma constructor_implicit {parts : Parts} (h : parts.ctor? = none) (parent? : Option String)
    (derived : Bool) : constructor (parentIdent parent?) derived parts = make (.func false false)
      [params [], block (parentCalls (parentIdent parent?) derived ++
        fieldInits (parentIdent parent?) parts.fields)] := by
  set c := instanceContext (parentIdent parent?) with hc
  have hself : ∀ n : Node, n.ownUse Tag.isSuper = false → c.lower n = n := lower_eq_self_of_ownUse rfl
  have hctor : constructor (parentIdent parent?) derived parts = make (.func false false)
      [c.lower (params []), block ((parentCalls (parentIdent parent?) derived ++
        parts.fields.map (initField this)).map c.lower)] := by
    simp only [constructor, constructorParts, h]
    rfl
  have hcalls : (parentCalls (parentIdent parent?) derived).map c.lower =
      parentCalls (parentIdent parent?) derived := by
    cases derived with
    | false => rfl
    | true => exact congrArg ([·]) (hself _ rfl)
  rw [hctor, hself (params []) rfl, map_append, hcalls]
  rfl

/-- A class with a constructor. -/
lemma constructor_explicit {parts : Parts} {s sb : Span} {tb : Tag} {key ps : Node}
    (h : parts.ctor? = some (mk s .ctor [key, ps, mk sb tb stmts])) (parent : Node) (derived : Bool) :
    constructor parent derived parts = make (.func false false) [(instanceContext parent).lower ps,
      block (insertAt (fieldsIndex stmts) (fieldInits parent parts.fields)
        (stmts.map (instanceContext parent).lower))] := by
  rw [constructor, constructorParts, h]
  exact congrArg (fun l => make (.func false false) [(instanceContext parent).lower ps, block l])
    (map_insertAt _)

include hw hL in
/-- **The constructor keeps its statements**, and initializes all fields in a row between them. -/
theorem isConstructor (name : String) (parent? : Option String) : IsConstructor known name
    (parentIdent parent?) parent?.isSome ms (constructor (parentIdent parent?) parent?.isSome
      (Parts.ofMembers ms')) := by
  set c := instanceContext (parentIdent parent?) with hc
  have hinits := isInitializer_fields hL name (parentIdent parent?)
  rcases ctor_cases hw hL with ⟨hnil, hnone⟩ |
    ⟨s, sb, sb', key, key', ps, ps', stmts, stmts', hctor, hsome, hpsL, hstmts, hpw, hsw⟩
  · refine ⟨params [], parentCalls (parentIdent parent?) parent?.isSome, _, [], ?_, hinits, ?_⟩
    · rw [constructor_implicit hnone, append_nil]
    · rw [append_nil, append_nil, hnil]
      exact .implicit
  · refine ⟨c.lower ps', (stmts'.map c.lower).take (fieldsIndex stmts'), _,
      (stmts'.map c.lower).drop (fieldsIndex stmts'), constructor_explicit hsome _ _, hinits, ?_⟩
    rw [take_append_drop, hctor]
    exact .explicit ⟨ps', hpsL, rfl⟩ (forall₂_map_lower hstmts)
      (takeWhile_constructor (parentIdent parent?) hstmts hsw)

lemma isLink_inherit (name parentName : String) : IsLink name parentName (inherit name parentName) := by
  refine ⟨_, _, _, rfl, ?_, .value (k := make (.keyName "prototype") [])⟩
  exact Within.second (Within.first .refl)

include hw hL in
/-- **The function that makes a class has a statement for each of its members.** -/
theorem isClassBody_makerBody (name : String) (parent? : Option String) :
    IsClassBody known ms name parent? (makerBody name parent? ms') := by
  refine ⟨_, (parent?.map (inherit name)).getD [], _, _, rfl, isConstructor hw hL name parent?, ?_, ?_, ?_⟩
  · cases parent? with
    | none => exact .inl ⟨rfl, rfl⟩
    | some y => exact .inr ⟨y, rfl, isLink_inherit name y⟩
  · rw [forall₂_map_right_iff]
    exact (forall₂_filter hL fun t => match t with
      | .method .. => true
      | _ => false).imp fun m m' hm => isDefinition_defineMethod hm.1 hm.2
  · rw [forall₂_map_right_iff]
    exact (forall₂_filter hL (· == .field true)).imp fun m m' hm =>
      isInitializer_defineStatic hm.1 (beq_iff_eq.mp hm.2)

end Body

/-! ## Scripts -/

/-- **Every member of a class is represented, once and in order.** A class that can be lowered is made by a
function that is called at once, with the parent if there is one. The statements of this function are the
constructor, the two links to the parent exactly if there is one, one for each method or accessor, one for
each static field, and the `return` of the class. -/
theorem members_represented {s : Script} (h : s.WellFormed) {d cls : Node} {own : Option String}
    (hd : s.Contains d) (hdef : Defines cls own d) (hl : isLowerable cls = true) :
    ∃ (name : String) (parent? : Option String) (body args : List Node),
      (own = some name ∨ own = none ∧ name ∉ vocabulary s) ∧
      parent?.isSome = (heritage? cls).isSome ∧ (∀ y ∈ parent?, y ∉ vocabulary s) ∧
      args.length = (heritage? cls).toList.length ∧
      (lowerScript s).1.Contains (call (paren (funcExpr
        (func (parent?.map binding).toList body))) args) ∧
      IsClassBody (vocabulary s) (membersOf cls) name parent? body := by
  have hcls : cls.Is .cls := by
    obtain ⟨k, hk, hin⟩ := hd
    exact hdef.is ((h k hk).1.within hin)
  obtain ⟨name, parent?, cls', args, hM, hlen, hin⟩ := exists_made h hd hdef hl
  obtain ⟨sm, hw, -, hms⟩ := hM.members hcls hl
  refine ⟨name, parent?, makerBody name parent? (membersOf cls'), args, ?_, hM.derived, hM.parent, hlen, ?_,
    isClassBody_makerBody hw hms name parent?⟩
  · exact hM.own.imp_right fun ho => ⟨ho.1, ho.2.1⟩
  · rw [maker_eq] at hin
    exact hin

/-- `class B extends A { constructor(a) { "use strict"; super(a); f(); } x = 1; get y() { return 2; }
m() { return super.m(); } static z = this; }`. -/
def everyKind : Node := make .cls [make .members [
  make .ctor [make (.keyName "constructor") [], params [binding "a"],
    block [useStrict, exprStmt (make (.superCall .none) [ident "a"]),
      exprStmt (call (ident "f") [])]],
  make (.field false) [make (.keyName "x") [], natLit 1],
  make (.method .getter false) [make (.keyName "y") [],
    func [] [returnStmt (natLit 2)]],
  make (.method .method false) [make (.keyName "m") [], func [] [returnStmt
    (call (make (.superMember .none) [make (.keyName "m") []]) [])]],
  make (.field true) [make (.keyName "z") [], this]], ident "A"]

/-- The statements of a class with a constructor, a field, an accessor, a method and a static field. -/
theorem members_represented_everyKind :
    let s : Script := { body := [make (.classDecl ⟨"B", .none⟩) [everyKind]] }
    s.WellFormed ∧ ∃ (name y : String) (body args : List Node), name = "B" ∧ y ∉ vocabulary s ∧
      args.length = 1 ∧ (lowerScript s).1.Contains (call (paren (funcExpr
        (func [binding y] body))) args) ∧
      IsClassBody (vocabulary s) (membersOf everyKind) name (some y) body := by
  intro s
  have hw : s.WellFormed := by decide
  obtain ⟨name, parent?, body, args, hname, hparent, hfresh, hlen, hin, hbody⟩ :=
    members_represented hw (d := make (.classDecl ⟨"B", .none⟩) [everyKind])
      ⟨_, mem_singleton.mpr rfl, .refl⟩ .decl (by decide)
  obtain ⟨y, rfl⟩ := Option.isSome_iff_exists.mp hparent
  obtain rfl : "B" = name := by simpa using hname
  exact ⟨hw, "B", y, body, args, rfl, hfresh y rfl, hlen, hin, hbody⟩

end Class

end EcmaLower
