import EcmaLower.Parser.Basic

/-!
# Names and property keys

Which words may be names depends on the context: strict code, generators, async functions, class
fields and static blocks each reserve some.
-/

namespace EcmaLower

namespace Parse

/-- Whether a token may be a name in a context. -/
def canName (c : Context) : TokenKind → Bool
  | .word w _ => !Lex.isReservedHere c w
  | .ident _ => true
  | _ => false

/-- Whether the current token may be a name here. -/
def isName : Parse Bool := return canName (← ctx) (← kind)

/-- A name that is used or bound. The initializer of a class field has no `arguments`. -/
def ident (allowAwait : Bool) : Parse Ident := do
  let span ← curSpan
  let c ← ctx
  match ← kind with
  | .ident n =>
    bump
    if n == "arguments" && c.inField then note span .argumentsInField
    return ⟨n, span⟩
  | .word w text =>
    if w == "enum" then
      bump
      note span (.invalidIdentInStrict text)
      return ⟨text, span⟩
    if w == "yield" || strictReserved.contains w then
      bump
      noteStrict span (.invalidIdentInStrict text)
      return ⟨text, span⟩
    if w == "await" then
      if c.inStaticBlock then fail span .expectedIdent
      if c.isModule || c.inAsync then fail span .invalidIdentInAsync
      if !allowAwait then fail span .expectedIdent
      bump
      return ⟨w, span⟩
    if alwaysReserved.contains w then fail span .expectedIdent
    bump
    return ⟨text, span⟩
  | _ => failHere .expectedIdent

/-- Any word. -/
def identName : Parse Ident := do
  let span ← curSpan
  match ← kind with
  | .word _ text =>
    bump
    return ⟨text, span⟩
  | .ident n =>
    bump
    return ⟨n, span⟩
  | _ => failHere .expectedIdent

/-- Whether a name may not be bound in strict code. -/
def isEvalOrArguments (name : String) : Bool :=
  name == "eval" || name == "arguments"

/-- A name that is bound. -/
def bindingIdent (forbidLet : Bool) : Parse Ident := do
  if forbidLet && (← isAtWord "let") then
    unexpected "let is reserved in const, let, class declaration"
  match ← kind with
  | .ident n =>
    let span ← curSpan
    bump
    if isEvalOrArguments n then noteStrict span .evalOrArgumentsBound
    return ⟨n, span⟩
  | _ =>
    let i ← ident true
    let c ← ctx
    if ((c.inAsync || c.inStaticBlock) && i.name == "await") ||
        (c.inGenerator && i.name == "yield") then
      note i.span .expectedIdent
    return i

/-- A name that is bound, if there is one. -/
def optBindingIdent (forbidLet : Bool) : Parse (Option Ident) := do
  if ← isName then some <$> bindingIdent forbidLet else return none

/-- The name of a label, at its use. -/
def labelIdent : Parse Ident := do
  ident !(← ctx).inAsync

/-! ## Keys -/

/-- A private name, at its hash. -/
def privateKey : Parse Node := do
  let start ← curPos
  bump
  if (← curPos) != (← prevSpan).hi then fail (← spanFrom start) .spaceAfterHash
  let i ← identName
  return .mk (← spanFrom start) (.keyPrivate i.name) []

/-- The key of a property. -/
def propertyKey (g : Grammar) : Parse Node := do
  let start ← curPos
  let leaf (t : Tag) : Parse Node := do
    bump
    return .mk (← spanFrom start) t []
  match ← kind with
  | .str value raw => leaf (.keyStr ⟨value, some raw⟩)
  | .num raw => leaf (.keyNum (.written raw))
  | .bigInt raw => leaf (.keyBigInt raw)
  | .word _ text => leaf (.keyName text)
  | .ident n => leaf (.keyName n)
  | .punct "[" =>
    bump
    let e ← allowIn g.assign
    expect "]"
    return .mk (← spanFrom start) .keyComputed [e]
  | _ => unexpected "identifier, string literal, numeric literal or [ for the computed key"

/-- The key of a class member. -/
def classKey (g : Grammar) : Parse Node := do
  if ← isAt "#" then
    let k ← privateKey
    if k.tag == .keyPrivate "constructor" then note k.span .privateConstructor
    return k
  propertyKey g

/-- Whether a key is that of a constructor. -/
def isConstructorKey (key : Node) : Bool :=
  match key.tag with
  | .keyName n => n == "constructor"
  | .keyStr s => s.value == Units.ofString "constructor"
  | _ => false

end Parse

end EcmaLower
