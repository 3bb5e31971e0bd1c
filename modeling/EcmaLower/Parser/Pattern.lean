import EcmaLower.Parser.Name

/-!
# Patterns

A pattern is read either as such, where a declaration demands one, or as an expression that turns
out to be a pattern, before `=`, `=>`, `in` or `of`.
-/

namespace EcmaLower

/-! ## Targets of assignments -/

/-- Whether an expression is part of an optional chain. -/
def Node.isOptChain (e : Node) : Bool :=
  match e.tag with
  | .optMember _ | .optCall _ => true
  | _ => false

/-- Whether an expression is a name, or a property that is not reached by an optional chain. -/
def isSimpleTarget (strict : Bool) (e : Node) : Bool :=
  e.fold fun _ t ks =>
    match t, ks with
    | .ident n, _ => !(strict && Parse.isEvalOrArguments n)
    | .paren, (_, r) :: _ => r
    | .member, (obj, r) :: _ => if obj.tag == .member then r else !obj.isOptChain
    | .superMember _, _ => true
    | _, _ => false

/-- Whether an expression is rejected as a target before it is known to be one. -/
def isDeniedTarget (denyCall : Bool) (e : Node) : Bool :=
  e.fold fun _ t ks =>
    match t, ks with
    | .null, _ | .bool _, _ | .num _, _ | .bigInt _, _ | .str _, _ | .regex .., _ => false
    | .call, _ | .superCall _, _ | .importCall .., _ => denyCall
    | .binary _, _ => false
    | .paren, (_, r) :: _ => r
    | _, _ => true

/-- What a pattern is for: a binding or an assignment, as a whole or as an element of another. -/
inductive PatternUse
  | bound | boundElement | assigned | assignedElement
deriving DecidableEq, Repr

/-- The use of the elements of a pattern. -/
def PatternUse.element : PatternUse → PatternUse
  | bound | boundElement => boundElement
  | assigned | assignedElement => assignedElement

namespace Parse

/-- Records a fault if an expression cannot be assigned to. -/
def checkTarget (e : Node) (denyCall : Bool) : Parse Unit := do
  match e.tag with
  | .ident n =>
    if isEvalOrArguments n then
      noteStrict e.span .evalOrArgumentsAssigned
      return
  | _ => pure ()
  if !isSimpleTarget (← ctx).strict e && isDeniedTarget denyCall e then
    note e.span .notAssignable

/-! ## Expressions read as patterns -/

/-- The end of a literal's list of elements, which may not follow a rest element. -/
def noteTrailingComma (literal : Span) : Parse Unit := do
  match (← get).trailingCommas.lookup literal.lo with
  | some comma => note comma .commaAfterRest
  | none => pure ()

/-- Whether an expression is an assignment. -/
def isAssign (e : Node) : Bool :=
  match e.tag with
  | .assign _ => true
  | _ => false

/-- Where an expression is spread, the place of the expression. -/
def spreadSpan (e : Node) : Span :=
  match e.kids with
  | inner :: _ => inner.span
  | [] => e.span

/-- The elements of an array pattern, from those of an array literal. -/
def arrayElements (literal : Span) (use : PatternUse) :
    List (Node × (PatternUse → Parse Node)) → Parse (List Node)
  | [] => return []
  | (k, r) :: rest => do
    let isLast := rest.all fun e => e.1.tag == .hole
    match k.tag with
    | .hole => if isLast then return [] else return k :: (← arrayElements literal use rest)
    | .spread =>
      if !rest.isEmpty then
        note (spreadSpan k) .restNotLast
        arrayElements literal use rest
      else
        if k.kids.any isAssign then note k.span .restInitializer
        noteTrailingComma literal
        let p ← r use.element
        return [.mk (spreadSpan k) .restPat [p]]
    | _ =>
      let p ← r use.element
      return p :: (← arrayElements literal use rest)

/-- The properties of an object pattern, from those of an object literal. -/
def objectElements (literal : Span) (use : PatternUse) :
    List (Node × (PatternUse → Parse Node)) → Parse (List Node)
  | [] => return []
  | (k, r) :: rest => do
    let p ← match k.tag with
      | .spread => do
        if !rest.isEmpty then note k.span .restNotLast else noteTrailingComma literal
        let p ← match use.element, k.kids with
          | .boundElement, [.mk s (.ident n) _] => pure (Node.mk s (.binding n) [])
          | .boundElement, _ => do
            note k.span .restNotIdent
            pure (Node.mk k.span .invalid [])
          | element, _ => r element
        if p.tag == .assignPat then note k.span .restInitializer
        pure (Node.mk k.span .restPat [p])
      | _ => r use
    return p :: (← objectElements literal use rest)

/-- An expression read as a pattern. An expression that is no pattern is recorded as a fault. -/
def toPattern (e : Node) (use : PatternUse) : Parse Node :=
  e.fold step use
where
  /-- Records that an expression is no pattern. -/
  notPattern (span : Span) : Parse Node := do
    note span .notPattern
    return .mk span .invalid []
  /-- A node that is neither an object nor an array. -/
  simple (span : Span) (t : Tag) (ks : List (Node × (PatternUse → Parse Node))) (use : PatternUse) :
      Parse Node := do
    let self := Node.mk span t (ks.map (·.1))
    match t with
    | .ident n => return .mk span (.binding n) []
    | .assign .plain =>
      match ks.map (·.1) with
      | [target, value] => return .mk span .assignPat [target, value]
      | _ => notPattern span
    | .member | .superMember _ | .call | .superCall _ | .importCall .. | .new _ | .null | .bool _
    | .num _ | .bigInt _ | .str _ | .regex .. | .funcExpr _ | .classExpr _ | .paren
    | .template _ =>
      if use == .assignedElement then return self else notPattern span
    | _ =>
      if use == .assignedElement then note span .notPattern
      notPattern span
  /-- The recursion. -/
  step (span : Span) (t : Tag) (ks : List (Node × (PatternUse → Parse Node))) (use : PatternUse) :
      Parse Node := do
    let self := Node.mk span t (ks.map (·.1))
    match t, ks with
    | .invalid, _ => return self
    | .object, _ => return .mk span .objectPat (← objectElements span use ks)
    | .array, _ => return .mk span .arrayPat (← arrayElements span use ks)
    | .spread, (_, r) :: _ => r use
    | .shorthand n, _ => return .mk span (.patName ⟨n, span⟩) []
    | .keyValue, [(key, _), (_, r)] => return .mk span .patKeyValue [key, ← r use.element]
    | .initShorthand n, _ => return .mk span (.patName n) (ks.map (·.1))
    | .objMethod, _ | .getter, _ | .setter, _ => fail span .notPattern
    | _, _ =>
      if use == .assigned then
        checkTarget self true
        match t with
        | .ident n => return .mk span (.binding n) []
        | _ => return self
      if use == .assignedElement && !isSimpleTarget (← ctx).strict self then
        match t with
        | .member | .superMember _ | .call | .superCall _ | .importCall .. | .new _ | .null
        | .bool _ | .num _ | .bigInt _ | .str _ | .regex .. | .ident _ | .funcExpr _
        | .classExpr _ | .paren | .template _ => note span .notSimpleTarget
        | _ => pure ()
      simple span t ks use

/-- Records the names `eval` and `arguments` among the parameters of a strict function. -/
def noteStrictParam (p : Node) : Parse Unit :=
  p.fold fun span t ks => do
    match t, ks with
    | .binding n, _ => if isEvalOrArguments n then note span .evalOrArgumentsBound
    | .patName i, _ => if isEvalOrArguments i.name then note i.span .evalOrArgumentsBound
    | .arrayPat, _ | .objectPat, _ | .restPat, _ => ks.forM fun k => k.2
    | .assignPat, (_, r) :: _ => r
    | .patKeyValue, [_, (_, r)] => r
    | _, _ => pure ()

/-! ## Bindings -/

/-- A binding with an optional default. -/
def bindingElement (g : Grammar) : Parse Node := do
  let start ← curPos
  let left ← g.binding false
  if ← eat "=" then
    let right ← allowIn g.assign
    return .mk (← spanFrom start) .assignPat [left, right]
  return left

/-- An array pattern. -/
def arrayBinding (g : Grammar) : Parse Node := do
  let start ← curPos
  bump
  let elems ← loop (([] : List Node), (none : Option Span)) fun (acc, rest) => do
    if ← isAt "]" then return .inr acc
    if ← isAt "," then
      bump
      return .inl (acc ++ [.mk .none .hole []], rest)
    if let some span := rest then note span .restNotLast
    let elemStart ← curPos
    let isRest ← eat "..."
    let (elem, rest) ← if isRest then do
        let p ← g.binding false
        let span ← spanFrom elemStart
        pure (Node.mk span .restPat [p], some span)
      else do
        pure (← bindingElement g, rest)
    if !(← isAt "]") then
      expect ","
      if isRest && (← isAt "]") then note (← prevSpan) .commaAfterRest
    return .inl (acc ++ [elem], rest)
  expect "]"
  return .mk (← spanFrom start) .arrayPat elems

/-- A property of an object pattern. -/
def bindingProperty (g : Grammar) : Parse Node := do
  let start ← curPos
  if ← eat "..." then
    let p ← g.binding false
    return .mk (← spanFrom start) .restPat [p]
  let key ← propertyKey g
  if ← eat ":" then
    let p ← bindingElement g
    return .mk (← spanFrom start) .patKeyValue [key, p]
  match key.tag with
  | .keyName n =>
    let i : Ident := ⟨n, key.span⟩
    if ← eat "=" then
      let value ← allowIn g.assign
      return .mk (← spanFrom start) (.patName i) [value]
    return .mk (← spanFrom start) (.patName i) []
  | _ => unexpected "an identifier"

/-- A list of properties in braces, and the comma before the closing brace. -/
def braced (property : Parse Node) : Parse (List Node × Option Span) := do
  bump
  loop (([] : List Node), (none : Option Span)) fun (acc, comma) => do
    if ← eat "\x7d" then return .inr (acc, comma)
    let p ← property
    if ← isAt "\x7d" then return .inl (acc ++ [p], none)
    expect ","
    let comma ← if ← isAt "\x7d" then some <$> prevSpan else pure none
    return .inl (acc ++ [p], comma)

/-- Where rest elements stand in an object pattern. -/
def checkObjectRest (comma : Option Span) : List Node → Parse Unit
  | [] => pure ()
  | p :: rest => do
    if p.tag == .restPat then
      if rest.isEmpty then
        match p.kids with
        | [.mk _ (.binding _) _] =>
          if let some c := comma then note c .commaAfterRest
        | _ => fail p.span .restNotIdent
      else note p.span .restNotLast
    checkObjectRest comma rest

/-- An object pattern. -/
def objectBinding (g : Grammar) : Parse Node := do
  let start ← curPos
  let (props, comma) ← within (fun c => { c with beforeColon := false })
    (braced (bindingProperty g))
  let span ← spanFrom start
  checkObjectRest comma props
  return .mk span .objectPat props

/-- A binding: a name or a pattern. -/
def binding (g : Grammar) (forbidLet : Bool) : Parse Node := do
  match ← kind with
  | .word .. | .ident _ =>
    let i ← bindingIdent forbidLet
    return .mk i.span (.binding i.name) []
  | .punct "[" => arrayBinding g
  | .punct "\x7b" => objectBinding g
  | .error f =>
    bump
    throw f
  | _ => unexpected "yield, an identifier, [ or \x7b"

end Parse

end EcmaLower
