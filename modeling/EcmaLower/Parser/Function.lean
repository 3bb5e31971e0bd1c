import EcmaLower.Parser.Pattern
import EcmaLower.Syntax.Directive

/-!
# Functions

Parameters and bodies of functions. A body is read in a context of its own; a directive at its
start can make it strict.
-/

namespace EcmaLower

namespace Parse

/-! ## Statement lists -/

/-- The statements of a body, up to a closing brace or the end of the text, each read by `item`.
The directive `"use strict"` as the first token makes all of them strict. -/
def statements {α : Type} (allowDirective closed : Bool) (item : Parse α) : Parse (List α) := do
  let strict := allowDirective && match ← kind with
    | .str _ raw => raw == "\"use strict\"" || raw == "'use strict'"
    | _ => false
  let body : Parse (List α) := collect fun _ => do
    let k ← kind
    if k.isEof then
      if closed then note (← curSpan) (.expected "\x7d" k.describe)
      return none
    if closed && k.isPunct "\x7d" then return none
    some <$> item
  let stmts ← if strict then within (fun c => { c with strict := true }) body else body
  if closed && !(← kind).isEof then bump
  return stmts

/-- Statements in braces. -/
def block (g : Grammar) (allowDirective : Bool) : Parse Node := do
  let start ← curPos
  expect "\x7b"
  let stmts ← within (fun c => { c with topLevel := false })
    (statements allowDirective true (g.stmt true))
  return .mk (← spanFrom start) .block stmts

/-! ## Parameters -/

/-- A parameter with an optional default. -/
def formalParam (g : Grammar) : Parse Node := do
  let start ← curPos
  let p ← g.binding false
  if ← eat "=" then
    let right ← g.assign
    return .mk (← spanFrom start) .assignPat [p, right]
  return p

/-- A rest parameter; its fault of having a default is recorded where one is read at all. -/
def restParam (g : Grammar) (readDefault : Bool) : Parse Node := do
  let start ← curPos
  bump
  let p ← g.binding false
  if readDefault then
    if ← eat "=" then
      let right ← g.assign
      note p.span .restInitializer
      let p := Node.mk (← spanFrom start) .assignPat [p, right]
      return .mk (← spanFrom start) .restPat [p]
  return .mk (← spanFrom start) .restPat [p]

/-- Parameters up to the closing parenthesis. -/
def paramList (g : Grammar) (readDefault : Bool) : Parse (List Node) :=
  loop (([] : List Node), (none : Option Span)) fun (acc, rest) => do
    if ← isAt ")" then return .inr acc
    if let some span := rest then note span .restParamNotLast
    let isRest ← isAt "..."
    let p ← if isRest then restParam g readDefault else formalParam g
    let rest := if isRest then some p.span else rest
    if !(← isAt ")") then
      expect ","
      if isRest && (← isAt ")") then note (← prevSpan) .commaAfterRest
    return .inl (acc ++ [p], rest)

/-- The parameters of a function. -/
def formalParams (g : Grammar) : Parse (List Node) := paramList g true

/-- The parameters of a constructor. -/
def constructorParams (g : Grammar) : Parse (List Node) := paramList g false

/-- Whether all parameters are plain names. -/
def isSimpleParams (ps : List Node) : Bool :=
  ps.all fun p => match p.tag with
    | .binding _ => true
    | _ => false

/-! ## Bodies -/

/-- The context of a function body. -/
def bodyContext (isAsync isGenerator isArrow : Bool) (c : Context) : Context :=
  { c with
    inFunction := true
    topLevel := false
    inStaticBlock := false
    allowBreak := false
    allowContinue := false
    inAsync := isAsync
    inGenerator := isGenerator
    inOrdinaryFunction := !isArrow || c.inOrdinaryFunction }

/-- Reads a body: in a context of its own, and without the labels around it. -/
def inBody {α : Type} (isAsync isGenerator isArrow : Bool) (p : Parse α) : Parse α := fun s =>
  let restore (t : ParseState) : ParseState :=
    { t with
      ctx := s.ctx
      labels := s.labels
      trailingCommas := s.trailingCommas
      arrowStart := s.arrowStart }
  match p { s with
      ctx := bodyContext isAsync isGenerator isArrow s.ctx
      labels := []
      trailingCommas := []
      arrowStart := none } with
  | .ok a t => .ok a (restore t)
  | .error e t => .error e (restore t)

/-- Records a strict directive in a function whose parameters are not plain names. -/
def checkDirective (params : List Node) (body : Node) : Parse Unit := do
  if !isSimpleParams params then
    match (body.kids.takeWhile isDirective).find? isUseStrict with
    | some s => note s.span .strictDirective
    | none => pure ()

/-- The body of a function that is no arrow. -/
def functionBody (g : Grammar) (isAsync isGenerator : Bool) (params : List Node) : Parse Node :=
  inBody isAsync isGenerator false do
    let b ← allowIn (block g true)
    checkDirective params b
    return b

/-- The body of an arrow function: a block or an expression. -/
def arrowTail (g : Grammar) (isAsync : Bool) (params : List Node) : Parse Node :=
  inBody isAsync false true do
    if ← isAt "\x7b" then
      let b ← block g false
      checkDirective params b
      return b
    g.assign

/-- Parameters and body of a function that starts at `start`; its parameters are read by
`params`. -/
def functionTail (g : Grammar) (start : Nat) (params : Parse (List Node))
    (isAsync isGenerator : Bool) : Parse Node :=
  within (fun c => { c with inAsync := isAsync, inGenerator := isGenerator }) do
    expect "("
    let open_ ← prevSpan
    let ps ← within (fun c => { c with inParameters := true, inFunction := false }) params
    expect ")"
    let paramsSpan : Span := ⟨open_.lo, (← prevSpan).hi⟩
    let body ← functionBody g isAsync isGenerator ps
    return .mk (← spanFrom start) (.func isAsync isGenerator) [.mk paramsSpan .params ps, body]

/-- A function from the word `function` on, whose text starts at `start`: its name, if there is
one, and the rest. The name of an expression is read in the context of the function itself. -/
def function (g : Grammar) (start : Nat) (isAsync isExpr needsName : Bool) :
    Parse (Option Ident × Node) := do
  bump
  let isGenerator ← eat "*"
  let outside (c : Context) : Context := { c with allowSuper := false, inField := false }
  let own (c : Context) : Context :=
    if isExpr then { outside c with inAsync := isAsync, inGenerator := isGenerator } else outside c
  let name ← within own (if needsName then some <$> bindingIdent false else optBindingIdent false)
  let f ← within (fun c => { outside c with beforeColon := false })
    (functionTail g start (formalParams g) isAsync isGenerator)
  return (name, f)

end Parse

end EcmaLower
