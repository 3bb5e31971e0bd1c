import EcmaLower.Parser.Object

/-!
# Classes
-/

namespace EcmaLower

namespace Parse

/-- Where a member starts, and the place of the word `static` before it. -/
structure MemberHead where
  start : Nat
  static : Option Span

/-- Whether a field ends after its key here; `asi` if the end of a line counts. -/
def isFieldEnd (asi : Bool) : Parse Bool := do
  let k ← kind
  if k.isPunct "=" || k.isPunct "\x7d" then return true
  if asi then isSemi else return k.isPunct ";"

/-- The rest of a field after its key. -/
def fieldTail (g : Grammar) (h : MemberHead) (key : Node) : Parse Node := do
  if isConstructorKey key then fail key.span .fieldNamedConstructor
  within (fun c => { c with includeIn := true, inField := true }) do
    let value ← if ← eat "=" then (fun e => [e]) <$> g.assign else pure []
    if !(← eatSemi) then note (← curSpan) .expectedSemi
    return .mk (← spanFrom h.start) (.field h.static.isSome) (key :: value)

/-- The rest of a method after its key. -/
def memberMethod (g : Grammar) (h : MemberHead) (key : Node) (kind : MethodKind)
    (params : Parse (List Node)) (isAsync isGenerator : Bool) : Parse Node := do
  let f ← methodTail g h.start params isAsync isGenerator
  return .mk (← spanFrom h.start) (.method kind h.static.isSome) [key, f]

/-- The rest of a constructor after its key. -/
def constructorTail (g : Grammar) (h : MemberHead) (key : Node) : Parse Node := do
  expect "("
  let open_ ← prevSpan
  let ps ← constructorParams g
  expect ")"
  let paramsSpan : Span := ⟨open_.lo, (← prevSpan).hi⟩
  let body ← functionBody g false false ps
  if let some s := h.static then note s (.constructorModifier "static")
  return .mk (← spanFrom h.start) .ctor [key, .mk paramsSpan .params ps, body]

/-- A member that starts with the word `get` or `set` and goes on with a key. -/
def accessorMember (g : Grammar) (h : MemberHead) (word : Node) : Parse Node := do
  let key ← classKey g
  if isConstructorKey key then note word.span .constructorAccessor
  if word.tag == .keyName "get" then
    memberMethod g h key .getter (getterParams g word.span) false false
  else memberMethod g h key .setter (setterParams g word.span) false false

/-- A member after its key, where the key may turn out to be a modifier. -/
def memberAfterKey (g : Grammar) (h : MemberHead) (key : Node) : Parse Node := do
  if ← isAt "(" then
    if isConstructorKey key then return ← constructorTail g h key
    return ← memberMethod g h key .method (formalParams g) false false
  let isAccessorWord := key.tag == .keyName "get" || key.tag == .keyName "set"
  let nextLineGenerator := (← lineBreakBefore) && (← isAt "*")
  let isAccessor := isAccessorWord && !(← isFieldEnd false) && !nextLineGenerator
  if !isAccessor && (← isFieldEnd true) then return ← fieldTail g h key
  if key.tag == .keyName "async" && !(← lineBreakBefore) then
    let isGenerator ← eat "*"
    let key ← classKey g
    if isConstructorKey key then fail key.span .constructorAsync
    return ← memberMethod g h key .method (formalParams g) true isGenerator
  if isAccessor then return ← accessorMember g h key
  unexpected "* for generator, private key, identifier or async"

/-- A member of a class. -/
def classMember (g : Grammar) : Parse Node := do
  let start ← curPos
  let static ← if ← eatWord "static" then some <$> spanFrom start else pure none
  let h : MemberHead := ⟨start, static⟩
  if let some s := static then
    let key := Node.mk s (.keyName "static") []
    let named : MemberHead := ⟨start, none⟩
    if ← isAt "(" then return ← memberMethod g named key .method (formalParams g) false false
    if (← isFieldEnd false) then return ← fieldTail g named key
    if ← isAt "\x7b" then
      let b ← within (fun c => { c with inStaticBlock := true, inField := true }) (block g false)
      return .mk (← spanFrom start) .staticBlock [b]
  if ← eat "*" then
    let key ← classKey g
    if isConstructorKey key then note (← spanFrom start) .constructorGenerator
    return ← memberMethod g h key .method (formalParams g) false true
  memberAfterKey g h (← classKey g)

/-- The members of a class, up to its closing brace. -/
def classMembers (g : Grammar) : Parse (List Node) :=
  collect fun acc => do
    if ← isAt "\x7d" then return none
    if ← eat ";" then return some (.mk (← prevSpan) .emptyMember [])
    let m ← within (fun c => { c with allowSuper := true }) (classMember g)
    if m.tag == .ctor && acc.any (·.tag == .ctor) then note m.span .duplicateConstructor
    return some m

/-- What a class extends: an expression without operators. -/
def superClass (g : Grammar) : Parse (List Node) := do
  if ← eatWord "extends" then
    let e ← g.heritage
    if ← eatWord "extends" then
      note (← prevSpan) .extendsTwice
      discard g.heritage
    return [e]
  return []

/-- A class from the word `class` on, whose text starts at `start`: its name, if there is one, and
the rest. All of it is strict code. -/
def classTail (g : Grammar) (start : Nat) (needsName : Bool) :
    Parse (Option Ident × Node) :=
  within (fun c => { c with inClass := true, strict := true }) do
    bump
    let name ← if needsName then some <$> bindingIdent true else optBindingIdent true
    let heritage ← superClass g
    expect "\x7b"
    let open_ ← prevSpan
    let members ← classMembers g
    expect "\x7d"
    let span ← spanFrom start
    return (name, .mk span .cls (.mk ⟨open_.lo, span.hi⟩ .members members :: heritage))

end Parse

end EcmaLower
