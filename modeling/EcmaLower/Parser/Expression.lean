import EcmaLower.Parser.Primary

/-!
# Expressions with operators
-/

namespace EcmaLower

namespace Parse

/-! ## Subscripts -/

/-- What a subscript is applied to. -/
inductive Base
  | expr (e : Node)
  | superWord (span : Span)
  | importWord (span : Span) (phase : Option String)

/-- The start of a base. -/
def Base.start : Base → Nat
  | expr e => e.span.lo
  | superWord s => s.lo
  | importWord s _ => s.lo

/-- The property of a base. -/
def memberOf (base : Base) (key : Node) (optional noCall : Bool) : Parse Node := do
  let span ← spanFrom base.start
  match base with
  | .importWord .. => failHere .invalidImport
  | .superWord s =>
    if !(← ctx).allowSuper then fail s .invalidSuper
    if optional then fail s (if noCall then .invalidSuperCall else .invalidSuper)
    match key.tag with
    | .keyPrivate _ => failHere .superPrivateName
    | _ => return .mk span (.superMember s) [key]
  | .expr obj =>
    if optional || obj.isOptChain then return .mk span (.optMember optional) [obj, key]
    return .mk span .member [obj, key]

/-- A call of a base. -/
def callOf (base : Base) (args : List Node) (optional : Bool) : Parse Node := do
  let span ← spanFrom base.start
  match base with
  | .importWord s phase => if optional then failHere .optionalSuper else
      return .mk span (.importCall s phase) args
  | .superWord s => if optional then failHere .optionalSuper else return .mk span (.superCall s) args
  | .expr callee =>
    if optional || callee.isOptChain then return .mk span (.optCall optional) (callee :: args)
    return .mk span .call (callee :: args)

/-- A key after a dot. -/
def dotKey : Parse Node := do
  if ← isAt "#" then return ← privateKey
  let i ← identName
  return .mk i.span (.keyName i.name) []

/-- A key in brackets, after the opening one. -/
def bracketKey (g : Grammar) : Parse Node := do
  let start := (← prevSpan).lo
  let e ← allowIn (expr g)
  expect "]"
  return .mk (← spanFrom start) .keyComputed [e]

/-- Passes the tokens `?` and `.`, which together make a subscript optional. -/
def eatOptional : Parse Bool := do
  if !(← isAt "?") then return false
  if !(← peek).kind.isPunct "." then return false
  bump
  bump
  return true

/-- One subscript, if there is one. -/
def subscript (g : Grammar) (base : Base) (noCall : Bool) : Parse (Base ⊕ Node) := do
  let optional ← eatOptional
  if ← eat "[" then return .inl (.expr (← memberOf base (← bracketKey g) optional noCall))
  if (optional || !noCall) && (← isAt "(") then
    return .inl (.expr (← callOf base (← arguments g) optional))
  let dotted ← if optional then pure true else eat "."
  if dotted then return .inl (.expr (← memberOf base (← dotKey) optional noCall))
  match base with
  | .importWord .. => failHere .invalidImport
  | .superWord _ => failHere (if noCall then .invalidSuperCall else .invalidSuper)
  | .expr e =>
    match ← kind with
    | .template .. =>
      let quoteStart ← curPos
      let (quasis, exprs) ← within (fun c => { c with beforeColon := false })
        (templateParts g true)
      let span ← spanFrom e.span.lo
      if e.isOptChain then note span .taggedOptional
      return .inl (.expr (.mk span (.tagged (← spanFrom quoteStart) quasis) (e :: exprs)))
    | _ => return .inr e

/-- All subscripts of a base; calls are left to the caller if `noCall`. -/
def subscripts (g : Grammar) (base : Base) (noCall : Bool) : Parse Node :=
  loop base fun b => subscript g b noCall

/-- `import` as an expression, after the word. -/
def importExpr (g : Grammar) (start : Nat) (noCall : Bool) : Parse Node := do
  let word ← prevSpan
  if !(← eat ".") then return ← subscripts g (.importWord word none) noCall
  let i ← identName
  match i.name with
  | "meta" =>
    let span ← spanFrom start
    if !(← ctx).isModule then note span .importMetaInScript
    subscripts g (.expr (.mk span .importMeta [])) noCall
  | "defer" | "source" => subscripts g (.importWord word (some i.name)) noCall
  | _ => unexpected "meta"

/-! ## Operands -/

/-- Whether the last step of an expression is an optional one. -/
def endsOptional (e : Node) : Bool :=
  e.tag == .optMember true || e.tag == .optCall true

/-- An operand without calls, or an application of `new`. -/
def newExpr (g : Grammar) : Parse Node := do
  let start ← curPos
  if ← eatWord "new" then
    if ← eat "." then
      if !(← eatWord "target") then unexpected "target"
      let span ← spanFrom start
      let c ← ctx
      if !c.inOrdinaryFunction && !c.inParameters && !c.inClass then note span .invalidNewTarget
      return ← subscripts g (.expr (.mk span .newTarget [])) true
    let callee ← g.newExpr
    if callee.isArrow then return callee
    if endsOptional callee then fail callee.span .optionalNew
    if ← isAt "(" then
      let args ← arguments g
      let e := Node.mk (← spanFrom start) (.new true) (callee :: args)
      return ← subscripts g (.expr e) true
    return .mk (← spanFrom start) (.new false) [callee]
  if ← eatWord "super" then return ← subscripts g (.superWord (← prevSpan)) true
  if ← eatWord "import" then return ← importExpr g start true
  let e ← primary g
  if e.isArrow then return e
  subscripts g (.expr e) true

/-- An operand: a primary expression with all its subscripts. -/
def leftHandSide (g : Grammar) : Parse Node := do
  let start ← curPos
  if ← eatWord "super" then return ← subscripts g (.superWord (← prevSpan)) false
  if ← eatWord "import" then return ← importExpr g start false
  let callee ← newExpr g
  if callee.isArrow || callee.tag == .new false then return callee
  if ← isAt "(" then
    let e ← callOf (.expr callee) (← arguments g) false
    return ← subscripts g (.expr e) false
  return callee

/-! ## Operators -/

/-- The operator before an operand that the current token is. -/
def unaryOp? (k : TokenKind) : Option UnaryOp :=
  match k with
  | .word "delete" _ => some .delete
  | .word "void" _ => some .void
  | .word "typeof" _ => some .typeOf
  | .punct "+" => some .plus
  | .punct "-" => some .minus
  | .punct "~" => some .tilde
  | .punct "!" => some .bang
  | _ => none

/-- The operator `++` or `--` that the current token is. -/
def updateOp? (k : TokenKind) : Option UpdateOp :=
  match k with
  | .punct "++" => some .increment
  | .punct "--" => some .decrement
  | _ => none

/-- `await` and its operand, or a name where no operand can follow. -/
def awaitExpr (g : Grammar) : Parse Node := do
  let start ← curPos
  bump
  if ← isAt "*" then failHere .awaitStar
  let c ← ctx
  let span ← spanFrom start
  let k ← kind
  let ends := (← isSemi) || k.isPunct ")" || k.isPunct "]" || k.isPunct ";" || k.isPunct ","
  if !c.inAsync && ends then
    if c.isModule then note span .invalidIdentInAsync
    return .mk span (.ident "await") []
  if c.topLevel && !c.isModule then note (← curSpan) .awaitInScript
  if c.inFunction && !c.inAsync then note span .awaitInFunction
  if c.inParameters && !c.inFunction then note span .awaitInParameters
  let e ← g.unary
  return .mk (← spanFrom start) .await [e]

/-- An operand of a binary operator. -/
def unary (g : Grammar) : Parse Node := do
  let start ← curPos
  let k ← kind
  if let some op := updateOp? k then
    bump
    let e ← g.unary
    checkTarget e false
    return .mk ⟨start, e.span.hi⟩ (.update op true) [e]
  if let some op := unaryOp? k then
    bump
    let place ← curPos
    let e ← tryCatch g.unary fun f => do
      noteFault f
      return .mk (.point (place - 1)) .invalid []
    if op == .delete then
      match e.tag with
      | .ident _ => noteStrict e.span .deleteIdent
      | _ => pure ()
    return .mk ⟨start, e.span.hi⟩ (.unary op) [e]
  if k.isWord "await" then return ← awaitExpr g
  let e ← leftHandSide g
  if e.isArrow then return e
  if ← lineBreakBefore then return e
  match updateOp? (← kind) with
  | some op =>
    checkTarget e false
    bump
    return .mk (← spanFrom e.span.lo) (.update op false) [e]
  | none => return e

/-- The binary operator that the current token is. -/
def binaryOpHere : Parse (Option BinaryOp) := do
  match ← kind with
  | .word "in" _ => return if (← ctx).includeIn then some .isIn else none
  | .word "instanceof" _ => return some .instanceOf
  | k => return k.binaryOp?

/-- Whether an expression is a logical one, which may not be mixed with `??`. -/
def isLogical (e : Node) : Bool :=
  e.tag == .binary .and || e.tag == .binary .or

/-- Records `??` mixed with `&&` or `||`. -/
def checkNullish (op : BinaryOp) (whole : Span) (left right : Node) : Parse Unit := do
  if op == .nullish then
    if isLogical left then note left.span .nullishMixed
    if isLogical right then note right.span .nullishMixed
  if (op == .and || op == .or) && left.tag == .binary .nullish then note whole .nullishMixed

/-- Binary operators that bind tighter than `minPrec`, after their left operand. The first argument
bounds the number of operators. -/
def binaryTail (g : Grammar) : Nat → Node → Nat → Parse Node
  | 0, _, _ => failHere .outOfFuel
  | n + 1, left, minPrec => do
    match ← binaryOpHere with
    | none => return left
    | some op =>
      if op.precedence ≤ minPrec then return left
      bump
      match left.tag with
      | .unary _ | .await => if op == .pow then failHere .unaryBeforePower
      | _ => pure ()
      let operand ← g.unary
      let right ← binaryTail g n operand
        (if op == .pow then op.precedence - 1 else op.precedence)
      let span : Span := ⟨left.span.lo, right.span.hi⟩
      checkNullish op span left right
      binaryTail g n (.mk span (.binary op) [left, right]) minPrec

/-- Binary operators after their left operand. -/
def binaryRest (g : Grammar) (left : Node) : Parse Node := do
  binaryTail g ((← get).lex.rest.length + 8) left 0

/-- Binary operators and their operands. A missing first operand is recorded as a fault, unless
an error token stands where the operator should be: then the parse stops with the fault of that. -/
def binary (g : Grammar) : Parse Node := do
  let left ← tryCatch (unary g) fun f => do
    failOnErrorToken
    if (← binaryOpHere).isSome then
      note (← curSpan) .expectedExpr
      return .mk f.span .invalid []
    throw f
  if left.isArrow then return left
  binaryRest g left

/-- A conditional expression. -/
def conditional (g : Grammar) : Parse Node := do
  let start ← curPos
  let test ← binary g
  if test.isArrow then return test
  if !(← eat "?") then return test
  let yes ← within (fun c => { c with beforeColon := true, includeIn := true }) g.assign
  expect ":"
  let no ← within (fun c => { c with beforeColon := false }) g.assign
  return .mk ⟨start, no.span.hi⟩ .cond [test, yes, no]

/-- Whether a token can start an expression. -/
def startsExpr : TokenKind → Bool
  | .punct t => ["(", "[", "\x7b", "!", "~", "+", "-", "++", "--", "/", "/=", "#", "<"].contains t
  | .word w _ => !isKeyword w || ["await", "class", "delete", "false", "function", "import", "let",
      "new", "null", "super", "this", "true", "typeof", "void", "yield"].contains w
  | .ident _ | .str .. | .num _ | .bigInt _ | .regex .. | .template .. => true
  | _ => false

/-- `yield` and its operand. -/
def yieldExpr (g : Grammar) : Parse Node := do
  let start ← curPos
  bump
  let c ← ctx
  if c.inParameters && !c.inFunction then fail (← prevSpan) .yieldInParameters
  let k ← kind
  if (← isSemi) || (!k.isPunct "*" && !startsExpr k && !k.isError) then
    return .mk (← spanFrom start) (.yield false) []
  let delegate ← eat "*"
  let e ← g.assign
  return .mk (← spanFrom start) (.yield delegate) [e]

/-- Whether an expression can be the target of a plain assignment. -/
def isTarget (e : Node) : Bool :=
  match e.tag with
  | .binding _ | .arrayPat | .objectPat | .member | .superMember _ | .optMember _ | .optCall _
  | .paren | .invalid => true
  | _ => false

/-- The target of an assignment that was read as an expression. -/
def assignTarget (op : AssignOp) (e : Node) : Parse Node := do
  let target ← if op == .plain then toPattern e .assigned else do
    if !isSimpleTarget (← ctx).strict e then note e.span .notSimpleTarget
    match e.tag with
    | .ident n => pure (.mk e.span (.binding n) [])
    | _ => pure e
  if isTarget target then return target
  fail target.span .invalidAssignTarget

/-- Whether an arrow function may start with a token. -/
def startsArrow : TokenKind → Bool
  | .punct t => t == "("
  | .word w _ => !isKeyword w || w == "yield"
  | .ident _ => true
  | _ => false

/-- An assignment expression. -/
def assign (g : Grammar) : Parse Node := do
  let start ← curPos
  let k ← kind
  if (← ctx).inGenerator && k.isWord "yield" then return ← yieldExpr g
  failOnErrorToken
  modify fun s => { s with arrowStart := if startsArrow k then some start else none }
  let e ← conditional g
  match e.tag with
  | .arrow _ | .cond | .binary _ | .unary _ | .update .. => return e
  | _ =>
    match (← kind).assignOp? with
    | none => return e
    | some op =>
      let target ← assignTarget op e
      bump
      let value ← g.assign
      return .mk (← spanFrom start) (.assign op) [target, value]

end Parse

end EcmaLower
