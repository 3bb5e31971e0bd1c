import EcmaLower.Proofs.ClassNames
import EcmaLower.Proofs.Scopes

/-!
# Scopes of the code of a class

A class becomes the call of a function that makes it. This module lists the scopes in this function: the
function binds the name of the class and that of its parent, and the constructor, a function in it, binds what
the constructor of the class did. What stands in the members of the class stands in the statements of one of the
two.
-/

namespace EcmaLower.Class

open Node List Build SuperContext

variable {l : Span × Tag} {S : List Frame} {a b k m owner p parent st : Node} {s : Span}

/-- The scope of the function that makes a class. -/
def makerScope (name : String) (parent? : Option String) : Frame := .ofFunction ++ .ofNames (parent?.toList ++ [name])

/-- The names that the constructor of a class binds. -/
def constructorNames (moved : Node → Bool) (ms : List Node) : List String :=
  ((Parts.ofMembers ms).ctor?.map fun m => m.parameters ++ m.kids.flatMap (bodyNames moved)).getD []

/-- The scope of the constructor of a class. -/
def constructorScope (moved : Node → Bool) (ms : List Node) : Frame :=
  .ofFunction ++ .ofNames (constructorNames moved ms)

/-- The statements in the function that makes a class. -/
def makerBody (name : String) (parent? : Option String) (ms : List Node) : List Node :=
  [useStrict, funcDecl name (constructor (ident (parent?.getD "Object"))
    parent?.isSome (Parts.ofMembers ms))] ++ makerRest name parent? ms

section Code

variable {name : String} {parent? : Option String} {ms : List Node} (hms : ∀ m ∈ ms, MemberShape m)

lemma declares_exprStmt (e : Node) (moved : Node → Bool) (top : Bool) :
    (exprStmt e).declares moved top = [] := declares_mk ..

include hms in
/-- Behind its constructor, the function that makes a class declares nothing. -/
lemma declares_makerRest (hk : k ∈ makerRest name parent? ms) : k.declares never true = [] ∧ k.role ≠ .block := by
  have hstmt : ∀ e, k = exprStmt e → k.declares never true = [] ∧ k.role ≠ .block := by
    rintro e rfl
    exact ⟨declares_exprStmt .., (by decide : Role.stmt ≠ .block)⟩
  simp only [makerRest, mem_append, mem_map, mem_singleton] at hk
  rcases hk with hk | ⟨m, hm, rfl⟩ | ⟨m, -, rfl⟩ | rfl
  · cases parent? with
    | none => cases hk
    | some parentName =>
      rcases mem_pair.mp hk with rfl | rfl
      · exact ⟨rfl, (by decide : Role.stmt ≠ .block)⟩
      · exact hstmt _ rfl
  · obtain ⟨hm, htag⟩ := mem_filter.mp hm
    cases hms m hm with
    | @method _ _ kind => cases kind <;> exact hstmt _ rfl
    | ctor | field | fieldInit | empty => cases htag
  · exact hstmt _ rfl
  · exact ⟨rfl, (by decide : Role.stmt ≠ .block)⟩

include hms in
lemma between_maker : (maker name parent? ms).between never 1 (block (makerBody name parent? ms)) =
    [makerScope name parent?] := by
  have hparams : (func (parent?.map binding).toList (makerBody name parent? ms)).parameters = parent?.toList := by
    cases parent? <;> rfl
  have hrest : (makerRest name parent? ms).flatMap (·.declares never true) = [] :=
    flatMap_eq_nil_iff.mpr fun k hk => (declares_makerRest hms hk).1
  have hbody : (block (makerBody name parent? ms)).bodyNames never = [name] := by
    change (makerBody name parent? ms).flatMap (·.declares never true) = [name]
    rw [makerBody, flatMap_append, hrest, append_nil]
    rfl
  rw [maker_eq]
  change [Frame.ofFunction ++ .ofNames ((func (parent?.map binding).toList
    (makerBody name parent? ms)).parameters ++ (block (makerBody name parent? ms)).bodyNames never)] = _
  rw [hparams, hbody]
  rfl

include hms in
/-- What stands in a statement of the function that makes a class stands in the call of this function. -/
lemma shows_build {cls : Node} (hcls : membersOf cls = ms) (hst : st ∈ makerBody name parent? ms)
    (hrole : st.role ≠ .block) (h : st.Holds l S) :
    (build name parent? cls).Shows l true (S ++ [makerScope name parent?]) := by
  obtain ⟨j, hj⟩ := getElem?_of_mem hst
  have hblock : (block (makerBody name parent? ms)).Holds l S := h.through hj (if_neg hrole)
  have hfunc := hblock.sealed (n := maker name parent? ms) (i := 1) (by rw [maker_eq]; rfl)
    (by rw [maker_eq]; rfl)
  rw [between_maker hms] at hfunc
  have hparen : (paren (funcExpr (maker name parent? ms))).Shows l true
      (S ++ [makerScope name parent?]) := by
    have := (hfunc.kid (n := funcExpr (maker name parent? ms)) (i := 0) rfl).kid
      (n := paren (funcExpr (maker name parent? ms))) (i := 0) rfl
    simpa [funcExpr, paren, make, between, seals, Tag.isCompound] using this
  have := hparen.kid (n := build name parent? cls) (i := 0) (by rw [build, hcls]; rfl)
  simpa [build, call, make, between, seals, Tag.isCompound] using this

/-- A field is initialized by a statement. -/
lemma declares_initField (owner field : Node) (moved : Node → Bool) (top : Bool) :
    (initField owner field).declares moved top = [] := declares_exprStmt ..

/-- A function has the parameters of its list. -/
lemma parameters_func {isAsync isGenerator : Bool} (ha : a.role = .params) (hb : b.role = .block) :
    (mk s (.func isAsync isGenerator) [a, b]).parameters = a.declaredNames := by
  rw [parameters, declaredNames_mk]
  simp [Tag.boundName, ha, hb, Role.mayBind]

/-- So has a constructor. -/
lemma parameters_ctor (hk : k.role = .key) (ha : a.role = .params) (hb : b.role = .block) :
    (mk s .ctor [k, a, b]).parameters = a.declaredNames := by
  rw [parameters, declaredNames_mk]
  simp [Tag.boundName, hk, ha, hb, Role.mayBind]

section Constructor

variable (parent : Node) (derived : Bool)

include hms in
/-- The parameters and the statements of a constructor declare the names that it binds. -/
lemma names_constructorParts : (constructorParts parent derived (Parts.ofMembers ms)).1.declaredNames ++
      (constructorParts parent derived (Parts.ofMembers ms)).2.flatMap (·.declares never true) =
        constructorNames never ms := by
  have hinits : ((Parts.ofMembers ms).fields.map (initField this)).flatMap
      (·.declares never true) = [] := by
    rw [flatMap_map]
    exact flatMap_eq_nil_iff.mpr fun m _ => declares_initField ..
  rcases ctor?_cases hms with ⟨-, hnone⟩ | ⟨s, sb, k, p, stmts, hsome, hmem, hp, hb⟩
  · simp only [constructorParts, constructorNames, hnone, flatMap_append, hinits]
    cases derived <;> rfl
  · have hkey : k.role = .key := by
      cases hms _ hmem with
      | ctor hk => exact hk.2
    simp only [constructorParts, constructorNames, hsome, insertAt, flatMap_append, hinits,
      Option.map_some, Option.getD_some, parameters_ctor hkey hp.2 hb.2, kids_mk, flatMap_cons,
      flatMap_nil, bodyNames_eq_nil (n := k) (by rw [hkey]; decide),
      bodyNames_eq_nil (n := p) (by rw [hp.2]; decide), nil_append, append_nil]
    rw [← flatMap_append, take_append_drop]
    rfl

variable {parent} (hp : parent.Is .expr)

include hms hp in
/-- The scope of the body of a constructor. -/
lemma between_constructor : (constructor parent derived (Parts.ofMembers ms)).between never 1
    (block ((constructorParts parent derived (Parts.ofMembers ms)).2.map
      (instanceContext parent).lower)) = [constructorScope never ms] := by
  obtain ⟨hps, hstmts⟩ := constructorParts_is hms hp derived
  have hc := instanceContext_wellFormed hp
  have hdeclared := hc.declares_lower _ hps.1
  have hbody : (block ((constructorParts parent derived (Parts.ofMembers ms)).2.map
      (instanceContext parent).lower)).bodyNames never =
        (constructorParts parent derived (Parts.ofMembers ms)).2.flatMap (·.declares never true) := by
    change flatMap _ (map _ _) = _
    rw [flatMap_map]
    exact flatMap_congr fun k hk => (hc.declares_lower k (hstmts k hk).1).stmt true
  change [Frame.ofFunction ++ .ofNames (parameters (mk .none (.func false false)
    [(instanceContext parent).lower (constructorParts parent derived (Parts.ofMembers ms)).1, _]) ++ _)] = _
  rw [parameters_func (hdeclared.role.trans hps.2) rfl, hdeclared.bound (.inr hps.2), hbody,
    names_constructorParts hms]
  rfl

include hms hp in
/-- The statements of a constructor stand in its scope. -/
lemma holds_constructor_stmt (hst : st ∈ (constructorParts parent derived (Parts.ofMembers ms)).2)
    (hl : l.2.ref?.isSome = true) (h : st.Holds l S) :
    (funcDecl name (constructor parent derived (Parts.ofMembers ms))).Holds l
      (S ++ st.blockScope never ++ [constructorScope never ms]) := by
  obtain ⟨-, hstmts⟩ := constructorParts_is hms hp derived
  have hc := instanceContext_wellFormed hp
  obtain ⟨b, h⟩ := h
  have hlower := hc.holds_lower st (hstmts st hst).1 hl h
  rw [relabel_of_receiver?_eq_none rfl] at hlower
  obtain ⟨j, hj⟩ := getElem?_of_mem hst
  have hblock := hlower.kid (n := block ((constructorParts parent derived
    (Parts.ofMembers ms)).2.map (instanceContext parent).lower)) (i := j)
    (getElem?_map_of_eq hj)
  have hscope : (block ((constructorParts parent derived (Parts.ofMembers ms)).2.map
      (instanceContext parent).lower)).between never j ((instanceContext parent).lower st) =
        st.blockScope never := (hc.declares_lower st (hstmts st hst).1).blockScope
  rw [hscope] at hblock
  have hfunc := hblock.kid (n := constructor parent derived (Parts.ofMembers ms)) (i := 1) rfl
  rw [between_constructor hms derived hp] at hfunc
  exact hfunc.through (i := 0) rfl rfl

include hms hp in
/-- The parameters of a constructor stand in the scope of the parameters. -/
lemma holds_constructor_params (hl : l.2.ref?.isSome = true)
    (h : (constructorParts parent derived (Parts.ofMembers ms)).1.Holds l S) :
    (funcDecl name (constructor parent derived (Parts.ofMembers ms))).Holds l
      (S ++ [.ofFunction ++ .ofNames (constructorParts parent derived (Parts.ofMembers ms)).1.declaredNames]) := by
  obtain ⟨hps, -⟩ := constructorParts_is hms hp derived
  have hc := instanceContext_wellFormed hp
  have hdeclared := hc.declares_lower _ hps.1
  obtain ⟨b, h⟩ := h
  have hlower := hc.holds_lower _ hps.1 hl h
  rw [relabel_of_receiver?_eq_none rfl] at hlower
  have hfunc := hlower.kid (n := constructor parent derived (Parts.ofMembers ms)) (i := 0) rfl
  have hscope : (constructor parent derived (Parts.ofMembers ms)).between never 0
      ((instanceContext parent).lower (constructorParts parent derived (Parts.ofMembers ms)).1) =
        [.ofFunction ++ .ofNames (constructorParts parent derived (Parts.ofMembers ms)).1.declaredNames] := by
    change [Frame.ofFunction ++ .ofNames (parameters (mk .none (.func false false)
      [(instanceContext parent).lower (constructorParts parent derived (Parts.ofMembers ms)).1, _]) ++
        Node.bodyNames never _)] = _
    rw [parameters_func (hdeclared.role.trans hps.2) rfl, hdeclared.bound (.inr hps.2),
      bodyNames_eq_nil (by rw [hdeclared.role, hps.2]; decide), append_nil]
  rw [hscope] at hfunc
  exact hfunc.through (i := 0) rfl rfl

end Constructor

/-! ### Keys, fields and methods -/

section Members

variable {l : Span × Tag} {S : List Frame} (hl : l.2.ref?.isSome = true)

include hl in
/-- A reference stands in a key only if the key is computed. -/
lemma holds_key (hk : k.OfRole Role.isPublicKey) (h : k.Holds l S) :
    (keyAsMember k).Holds l S ∧ (keyAsExpr k).Holds l S := by
  have hleaf : ∀ {s : Span} {t : Tag}, t.ref? = none → ¬(mk s t []).Holds l S := by
    rintro s t ht ⟨b, h⟩
    obtain ⟨i, k, _, _, ⟨⟩, -⟩ := h.exists_kid hl ht
  cases keyShape hk with
  | name | str | num | bigInt => exact absurd h (hleaf rfl)
  | computed =>
    obtain ⟨b, hs⟩ := h
    obtain ⟨i, e', he, hs'⟩ := hs.exists_kid_open hl rfl (fun _ => rfl) fun _ _ => rfl
    obtain rfl := mem_singleton.mp (mem_of_getElem? he)
    exact ⟨⟨b, hs⟩, ⟨b, hs'⟩⟩

/-- A store `owner[key] = value`, as it is made for fields and methods. -/
lemma holds_assign {key value : Node} (h : key.Holds l S ∨ value.Holds l S) :
    (exprStmt (assign (access owner key) value)).Holds l S := by
  refine Holds.through (i := 0) ?_ rfl rfl
  rcases h with h | h
  · exact (h.through (n := access owner key) (i := 1) rfl rfl).through (i := 0) rfl rfl
  · exact h.through (i := 1) rfl rfl

include hl in
lemma holds_initField (hk : (fieldParts m).1.OfRole Role.isPublicKey)
    (h : (fieldParts m).1.Holds l S ∨ (fieldParts m).2.Holds l S) : (initField owner m).Holds l S :=
  holds_assign (h.imp_left fun h => (holds_key hl hk h).1)

include hl in
lemma holds_defineStatic (hk : (fieldParts m).1.OfRole Role.isPublicKey)
    (h : (fieldParts m).1.Holds l S ∨ ((staticContext name parent).lower (fieldParts m).2).Holds l S) :
    (defineStatic name parent m).Holds l S :=
  holds_assign (h.imp_left fun h => (holds_key hl hk h).1)

include hl in
/-- The function of a method keeps its scopes. -/
lemma holds_method_func {c : SuperContext} {a g : Bool} (hc : c.WellFormed) (hr : c.receiver? = none)
    (hp : p.Is .params) (hb : b.Is .block) (h : (mk s (.func a g) [p, b]).Holds l S) :
    (mk s (.func a g) ([p, b].map c.lower)).Holds l S := by
  have hw : (mk s (.func a g) [p, b]).WellFormed := (is_of_roles (.cons hp (.cons hb .nil)) rfl rfl).1
  obtain ⟨_, h⟩ := h
  obtain ⟨i, k, _, S₁, hk, h₁, -, rfl⟩ := h.exists_kid hl rfl
  have hmem : k ∈ [p, b] := mem_of_getElem? hk
  have hlower := hc.holds_lower k (hw.kid hmem) hl h₁
  rw [relabel_of_receiver?_eq_none hr] at hlower
  have hkids : Forall₂ (Declares never) [p, b] ([p, b].map c.lower) := by
    rw [forall₂_map_right_iff, forall₂_same]
    exact fun k hk => hc.declares_lower k (hw.kid hk)
  rw [← between_congr hkids hw i (hc.declares_lower k (hw.kid hmem))]
  exact hlower.kid (getElem?_map_of_eq hk)

include hl in
lemma holds_defineMethod {sf : Span} {kind : MethodKind} {isStatic a g : Bool} (hparent : parent.Is .expr)
    (hk : k.OfRole Role.isPublicKey) (hp : p.Is .params) (hb : b.Is .block)
    (h : k.Holds l S ∨ (mk sf (.func a g) [p, b]).Holds l S) :
    (defineMethod name parent (mk s (.method kind isStatic) [k, mk sf (.func a g) [p, b]])).Holds l S := by
  have hkey := holds_key hl hk (S := S)
  have hfunc : (mk sf (.func a g) [p, b]).Holds l S → (Build.funcExpr (mk sf (.func a g)
      ([p, b].map (SuperContext.lower { parent, isStatic })))).Holds l S := fun h =>
    (holds_method_func hl (methodContext_wellFormed hparent isStatic) rfl hp hb h).through (i := 0) rfl rfl
  have haccessor : ∀ (f target : Node) (slot : String), k.Holds l S ∨ f.Holds l S →
      (Build.exprStmt (Build.call (Build.path ["Object", "defineProperty"]) [target, keyAsExpr k,
        Build.object [(slot, f), ("configurable", Build.boolLit true)]])).Holds l S := by
    intro f target slot h
    refine Holds.through (i := 0) ?_ rfl rfl
    rcases h with h | h
    · exact (hkey h).2.through (i := 2) rfl rfl
    · refine Holds.through (i := 3) ?_ rfl rfl
      refine Holds.through (i := 0) ?_ rfl rfl
      exact h.through (i := 1) rfl rfl
  cases kind with
  | method => exact holds_assign (h.imp (fun h => (hkey h).1) hfunc)
  | getter => exact haccessor _ _ "get" (h.imp_right hfunc)
  | setter => exact haccessor _ _ "set" (h.imp_right hfunc)

end Members

end Code

end EcmaLower.Class
