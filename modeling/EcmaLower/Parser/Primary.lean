import EcmaLower.Parser.ClassBody

/-!
# Primary expressions

The expressions that start an operand: literals, names, parentheses, functions and classes. An
arrow function is recognized after its parameters, which are read as expressions first.
-/

namespace EcmaLower

/-- Whether an expression is an arrow function. -/
def Node.isArrow (e : Node) : Bool :=
  match e.tag with
  | .arrow _ => true
  | _ => false

namespace Parse

/-! ## Lists of expressions -/

/-- An expression, with commas. -/
def expr (g : Grammar) : Parse Node := do
  let first ← g.assign
  if !(← isAt ",") then return first
  let rest ← collect fun _ => do
    if ← eat "," then some <$> g.assign else return none
  return .mk (← spanFrom first.span.lo) .seq (first :: rest)

/-- An argument or array element, which may be spread. -/
def exprOrSpread (g : Grammar) : Parse Node := do
  let start ← curPos
  if ← eat "..." then
    let e ← g.assign
    return .mk ⟨start, e.span.hi⟩ .spread [e]
  g.assign

/-- Arguments in parentheses. -/
def arguments (g : Grammar) : Parse (List Node) :=
  within (fun c => { c with beforeColon := false }) do
    expect "("
    let args ← collect fun acc => do
      if ← isAt ")" then return none
      if !acc.isEmpty then
        expect ","
        if ← isAt ")" then return none
      some <$> allowIn (exprOrSpread g)
    expect ")"
    return args

/-- An array literal. -/
def arrayLiteral (g : Grammar) : Parse Node :=
  within (fun c => { c with beforeColon := false }) do
    let start ← curPos
    bump
    let elems ← collect fun _ => do
      if ← isAt "]" then return none
      if ← isAt "," then
        bump
        return some (.mk .none .hole [])
      let e ← allowIn (exprOrSpread g)
      if !(← isAt "]") then
        expect ","
        if ← isAt "]" then
          let comma ← prevSpan
          modify fun s => { s with trailingCommas := (start, comma) :: s.trailingCommas }
      return some e
    expect "]"
    return .mk (← spanFrom start) .array elems

/-! ## Templates and regular expressions -/

/-- Reads the current token anew, from where it starts. -/
def rescan (read : Lex Token) : Parse Unit := do
  let t ← lex read
  modify fun s => { s with cur := t }

/-- The parts of a template from its opening quote on, and its substitutions. A bad escape is a
fault unless the template is tagged. -/
def templateParts (g : Grammar) (isTagged : Bool) : Parse (List Quasi × List Node) :=
  loop (([] : List Quasi), ([] : List Node)) fun (quasis, exprs) => do
    match ← kind with
    | .template _ isLast raw cooked =>
      let q : Quasi ← match cooked with
        | .ok us => pure ⟨raw, some us⟩
        | .error f => if isTagged then pure ⟨raw, none⟩ else throw f
      bump
      if isLast then return .inr (quasis ++ [q], exprs)
      let e ← allowIn (expr g)
      failOnErrorToken
      if !(← isAt "\x7d") then unexpected "`\x7d`"
      let c ← ctx
      rescan (Lex.templateToken c)
      failOnErrorToken
      return .inl (quasis ++ [q], exprs ++ [e])
    | _ => unexpected "template token"

/-- A template without a tag. -/
def templateLiteral (g : Grammar) : Parse Node := do
  let start ← curPos
  let (quasis, exprs) ← templateParts g false
  return .mk (← spanFrom start) (.template quasis) exprs

/-- The flags that a regular expression may have. -/
def regExpFlags : List Char := ['d', 'g', 'i', 'm', 's', 'u', 'v', 'y']

/-- Records faults of the flags of a regular expression. -/
def checkFlags (span : Span) (flags : List Char) : Parse Unit := do
  let known := flags.filter regExpFlags.contains
  if known.length != flags.length then note span .unknownRegExpFlags
  match known.find? fun c => 1 < known.count c with
  | some c => note span (.duplicateRegExpFlag c)
  | none => pure ()

/-- A regular expression, at its opening slash. -/
def regExp : Parse Node := do
  let start ← curPos
  rescan Lex.regExpToken
  match ← kind with
  | .regex pattern flags =>
    bump
    let span ← spanFrom start
    checkFlags span flags.toList
    return .mk span (.regex pattern flags) []
  | _ => failHere .expectedExpr

/-! ## Parentheses and arrow functions -/

/-- The arrow function with the given parameters, after its arrow. -/
def arrowFunction (g : Grammar) (start : Nat) (isAsync : Bool) (params : List Node) :
    Parse Node := do
  let body ← arrowTail g isAsync params
  let span ← spanFrom start
  return .mk span (.arrow isAsync) [.mk ⟨start, start⟩ .params params, body]

/-- Parameters of an arrow function, from the expressions in its parentheses and the comma before
the closing one. -/
def arrowParams (comma : Option Span) : List Node → Parse (List Node)
  | [] => return []
  | e :: rest => do
    match e.tag, e.kids with
    | .spread, [inner] =>
      if !rest.isEmpty then
        note e.span .restParamNotLast
        arrowParams comma rest
      else
        if isAssign inner then note e.span .restInitializer
        if let some c := comma then note c .commaAfterRest
        let p ← toPattern inner .bound
        return [.mk inner.span .restPat [p]]
    | _, _ =>
      let p ← toPattern e .bound
      return p :: (← arrowParams comma rest)

/-- Parameters of an arrow function, checked for names that strict code may not bind. -/
def checkedArrowParams (comma : Option Span) (items : List Node) : Parse (List Node) := do
  let ps ← arrowParams comma items
  if (← ctx).strict then ps.forM noteStrictParam
  return ps

/-- The expressions in parentheses, and the comma before the closing one. -/
def parenItems (g : Grammar) : Parse (List Node × Option Span) := do
  expect "("
  let r ← loop (([] : List Node), (none : Option Span)) fun (acc, comma) => do
    if ← isAt ")" then return .inr (acc, comma)
    let start ← curPos
    let e ← exprOrSpread g
    let items := acc ++ [e]
    let items ← if ← eat "=>" then
        match items with
        | [.mk _ (.ident _) _] => do
          let ps ← checkedArrowParams none items
          let f ← arrowFunction g start false ps
          pure (items ++ [f])
        | _ => pure items
      else pure items
    if ← isAt ")" then return .inl (items, none)
    expect ","
    let comma ← if ← isAt ")" then some <$> prevSpan else pure none
    return .inl (items, comma)
  expect ")"
  return r

/-- Records each `name = value` of an object in parentheses that hold no parameters. -/
def noteInitShorthand (e : Node) : Parse Unit :=
  if e.tag == .object then
    e.kids.forM fun p => do
      match p.tag with
      | .initShorthand _ => note p.span .assignProperty
      | _ => pure ()
  else pure ()

/-- The expression in parentheses, which may not be spread. -/
def noSpread (e : Node) : Parse Unit :=
  if e.tag == .spread then fail (spreadSpan e) .spreadInParens else pure ()

/-- A parenthesis: the parameters of an arrow function, the arguments of a call of `async`, or an
expression. The text starts at the word `async` if that precedes it. -/
def parenOrArrow (g : Grammar) (canBeArrow : Bool) (async : Option Span) : Parse Node := do
  let start ← match async with
    | some s => pure s.lo
    | none => curPos
  let (items, comma) ← within (fun c => { c with beforeColon := false, includeIn := true })
    (parenItems g)
  if ← isAt "=>" then
    if ← lineBreakBefore then fail (← spanFrom start) .lineBreakBeforeArrow
    if !canBeArrow then fail (← spanFrom start) .arrowNotAllowed
    bump
    let ps ← checkedArrowParams comma items
    return ← arrowFunction g start async.isSome ps
  items.forM noteInitShorthand
  if let some s := async then
    return .mk (← spanFrom start) .call (.mk s (.ident "async") [] :: items)
  match items with
  | [] => fail ⟨start, (← prevSpan).hi⟩ .emptyParens
  | [e] =>
    noSpread e
    return .mk (← spanFrom start) .paren [e]
  | first :: _ =>
    items.forM noSpread
    let last := items.getLastD first
    let seq := Node.mk ⟨first.span.lo, last.span.hi⟩ .seq items
    return .mk (← spanFrom start) .paren [seq]

/-! ## Names -/

/-- A function or class expression's node, from its name and the rest. -/
def namedExpr (tag : Option Ident → Tag) (r : Option Ident × Node) : Node :=
  .mk r.2.span (tag r.1) [r.2]

/-- An expression that starts with a name: the name, or an arrow function with one parameter. -/
def nameOrArrow (g : Grammar) (canBeArrow : Bool) : Parse Node := do
  let start ← curPos
  let c ← ctx
  let isAsync ← isAtWord "async"
  let i ← ident !c.inAsync
  let name := Node.mk i.span (.ident i.name) []
  if !canBeArrow then return name
  if isAsync && !(← lineBreakBefore) && (← isName) then
    if c.inForInit && (← isAtWord "of") then
      if !(← peek).kind.isPunct "=>" then
        if !c.inForAwaitInit then note (← prevSpan) .forOfAsync
        return name
    let p ← bindingIdent false
    expect "=>"
    return ← arrowFunction g start true [.mk p.span (.binding p.name) []]
  if !(← lineBreakBefore) && (← isAt "=>") then
    bump
    if c.strict && isEvalOrArguments i.name then noteStrict i.span .evalOrArgumentsBound
    return ← arrowFunction g start false [.mk i.span (.binding i.name) []]
  return name

/-! ## Primary expressions -/

/-- A primary expression. -/
def primary (g : Grammar) : Parse Node := do
  let start ← curPos
  let canBeArrow := (← get).arrowStart == some start
  let leaf (t : Tag) : Parse Node := do
    bump
    return .mk (← spanFrom start) t []
  match ← kind with
  | .str value raw => leaf (.str ⟨value, some raw⟩)
  | .num raw => leaf (.num (.written raw))
  | .bigInt raw => leaf (.bigInt raw)
  | .template .. => templateLiteral g
  | .punct "[" => arrayLiteral g
  | .punct "\x7b" => objectLiteral g
  | .punct "(" => parenOrArrow g canBeArrow none
  | .punct "/" | .punct "/=" => regExp
  | .punct "#" =>
    bump
    let i ← identName
    return .mk (← spanFrom start) (.privateName i.name) []
  | .word "this" _ => leaf .this
  | .word "null" _ => leaf .null
  | .word "true" _ => leaf (.bool true)
  | .word "false" _ => leaf (.bool false)
  | .word "function" _ => namedExpr .funcExpr <$> function g start false true false
  | .word "class" _ => namedExpr .classExpr <$> classTail g start false
  | .word w _ =>
    if w == "async" then
      let next ← peek
      if !next.lineBreak && next.kind.isWord "function" then
        bump
        return namedExpr .funcExpr (← function g start true true false)
      if canBeArrow && !next.lineBreak && next.kind.isPunct "(" then
        bump
        return ← parenOrArrow g canBeArrow (some (← prevSpan))
    if w == "let" || (← isName) then return ← nameOrArrow g canBeArrow
    failHere .expectedExpr
  | .ident _ => nameOrArrow g canBeArrow
  | _ => failHere .expectedExpr

end Parse

end EcmaLower
