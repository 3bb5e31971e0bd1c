import EcmaLower.Parser.Expression

/-!
# Statements
-/

namespace EcmaLower

namespace Parse

/-! ## Declarations of variables -/

/-- Whether a token after `let` makes it a keyword. -/
def followsLet : TokenKind → Bool
  | .punct t => t == "[" || t == "\x7b"
  | .word w _ => !isKeyword w || w == "let" || w == "yield" || w == "await"
  | .ident _ => true
  | _ => false

/-- Whether a declaration of variables starts here. -/
def isVarStart : Parse Bool := do
  match ← kind with
  | .word "var" _ | .word "const" _ => return true
  | .word "let" _ => return followsLet (← peek).kind
  | _ => return false

/-- One declared variable or pattern with its initializer. -/
def declarator (g : Grammar) (kind : VarKind) (inForHead : Bool) : Parse Node := do
  let start ← curPos
  let name ← g.binding (kind != .var)
  if inForHead && ((← isAtWord "in") || (← isAtWord "of")) then
    return .mk (← spanFrom start) .declarator [name]
  if ← eat "=" then
    let value ← g.assign
    return .mk (← spanFrom start) .declarator [name, value]
  if kind == .const && !inForHead then note (← spanFrom start) .constWithoutInit
  else match name.tag with
    | .binding _ => pure ()
    | _ => fail (← spanFrom start) .patternWithoutInit
  return .mk (← spanFrom start) .declarator [name]

/-- Passes tokens up to the end of a statement; the argument bounds their number. -/
def skipStatement : Nat → Parse Unit
  | 0 => pure ()
  | n + 1 => do
    if ← eatSemi then return
    bump
    let k ← kind
    if k.isError || k.isEof then return
    skipStatement n

/-- The declared variables after a keyword. -/
def declarators (g : Grammar) (keyword : Span) (kind : VarKind) (inForHead : Bool) :
    Parse (List Node) :=
  loop ([] : List Node) fun acc => do
    if ← isAt ";" then
      let prev ← prevSpan
      note (if prev == keyword then .point prev.hi else prev) .trailingComma
      return .inr acc
    let d ← within (fun c => { c with includeIn := kind != .var || !inForHead })
      (declarator g kind inForHead)
    if ← eat "," then return .inl (acc ++ [d])
    return .inr (acc ++ [d])

/-- A declaration of variables, as a statement or in the head of a `for`. -/
def varDecl (g : Grammar) (inForHead : Bool) : Parse Node := do
  let start ← curPos
  let kind : VarKind := match ← kind with
    | .word "const" _ => .const
    | .word "let" _ => .let
    | _ => .var
  bump
  let decls ← declarators g (← spanFrom start) kind inForHead
  if !inForHead then
    if !(← eatSemi) then
      note (← curSpan) .expectedSemi
      discard <| tryCatch (some <$> expr g) fun _ => return none
      skipStatement ((← get).lex.rest.length + 8)
  return .mk (← spanFrom start) (.varDecl kind) decls

/-- Whether a declaration of resources starts here: the word `using` and a name on its line. -/
def isUsingStart : Parse Bool := do
  if !(← isAtWord "using") then return false
  let next ← peek
  return !next.lineBreak && canName (← ctx) next.kind

/-- A declaration of resources that starts at `start`, at the word `using`. It is read only to be
recorded as a fault. -/
def usingDecl (g : Grammar) (start : Nat) : Parse Node := do
  let keyword ← curSpan
  bump
  let decls ← declarators g keyword .var false
  let span ← spanFrom start
  note span .usingNotEnabled
  return .mk span (.varDecl .var) decls

/-! ## Loops -/

/-- A statement that is the body of another. -/
def subStmt (g : Grammar) : Parse Node :=
  within (fun c => { c with topLevel := false }) (g.stmt false)

/-- The body of a loop. -/
def loopBody (g : Grammar) : Parse Node :=
  within (fun c => { c with allowBreak := true, allowContinue := true }) (subStmt g)

/-- An expression in parentheses. -/
def parenthesized (g : Grammar) : Parse Node := do
  expect "("
  let e ← allowIn (expr g)
  expect ")"
  return e

/-- A `while` loop. -/
def whileStmt (g : Grammar) : Parse Node := do
  let start ← curPos
  bump
  let test ← parenthesized g
  let body ← loopBody g
  return .mk (← spanFrom start) .whileStmt [test, body]

/-- A `do` loop. -/
def doWhile (g : Grammar) : Parse Node := do
  let start ← curPos
  bump
  let body ← loopBody g
  expectWord "while"
  let test ← parenthesized g
  discard eatSemi
  return .mk (← spanFrom start) .doWhile [test, body]

/-- The place of an optional child that is not there. -/
def absentNode : Node := .mk .none .absent []

/-- What the head of a `for` says. -/
inductive ForHead
  | plain (init test update : Node)
  | forIn (left right : Node)
  | forOf (left right : Node)

/-- The head of a `for` after its first semicolon. -/
def plainForHead (g : Grammar) (init : Node) : Parse ForHead := do
  let test ← if ← eat ";" then pure absentNode else do
    let e ← allowIn (expr g)
    expect ";"
    pure e
  let update ← if ← isAt ")" then pure absentNode else allowIn (expr g)
  return .plain init test update

/-- The head of a `for` at the word `in` or `of`. -/
def eachForHead (g : Grammar) (left : Node) : Parse ForHead := do
  if ← eatWord "of" then return .forOf left (← allowIn g.assign)
  bump
  return .forIn left (← allowIn (expr g))

/-- Whether the current token is `in` or `of`. -/
def isInOrOf : Parse Bool := do
  let k ← kind
  return k.isWord "in" || k.isWord "of"

/-- Records faults of the declaration in the head of a `for` with `in` or `of`. -/
def checkForDecl (decl : Node) : Parse Unit := do
  match decl.kids with
  | [d] =>
    if (← ctx).strict || (← isAtWord "of") then
      match d.kids with
      | [name, _] => note name.span .forInitializer
      | _ => pure ()
  | ds => ds.forM fun d =>
    match d.kids with
    | name :: _ => note name.span .manyForBindings
    | [] => pure ()

/-- The head of a `for`, in its parentheses. -/
def forHead (g : Grammar) : Parse ForHead := do
  if ← isVarStart then
    let decl ← varDecl g true
    if ← isInOrOf then
      checkForDecl decl
      return ← eachForHead g decl
    expect ";"
    return ← plainForHead g decl
  if ← eat ";" then return ← plainForHead g absentNode
  let init ← within (fun c => { c with includeIn := false }) (expr g)
  if ← isInOrOf then
    let p ← toPattern init .assigned
    return ← eachForHead g p
  expect ";"
  plainForHead g init

/-- A `for` loop. -/
def forStmt (g : Grammar) : Parse Node := do
  let start ← curPos
  bump
  let await : Option Span ← if ← eatWord "await" then some <$> prevSpan else pure none
  expect "("
  let head ← within (fun c => { c with inForInit := true, inForAwaitInit := await.isSome })
    (forHead g)
  expect ")"
  let body ← loopBody g
  let span ← spanFrom start
  match head, await with
  | .forOf l r, _ => return .mk span (.forOf await.isSome) [l, r, body]
  | _, some s => fail s .awaitForIn
  | .forIn l r, none => return .mk span .forIn [l, r, body]
  | .plain i t u, none => return .mk span .forStmt [i, t, u, body]

/-! ## Branches -/

/-- An `if` statement whose own `else` is not read if `noElse`: in a chain of `else if` each
belongs to the statement before it. -/
def ifStmt (g : Grammar) (noElse : Bool) : Parse Node := do
  let start ← curPos
  bump
  let test ← parenthesized g
  let yes ← subStmt g
  if noElse then return .mk (← spanFrom start) .ifStmt [test, yes]
  let (chain, last) ← loop ([] : List Node) fun acc => do
    if !(← eatWord "else") then return .inr (acc, none)
    if !(← isAtWord "if") then return .inr (acc, some (← subStmt g))
    let next ← g.ifStmt true
    return .inl (acc ++ [next])
  let no := chain.foldr (fun s rest =>
    some (Node.mk s.span s.tag (s.kids ++ rest.toList))) last
  return .mk (← spanFrom start) .ifStmt ([test, yes] ++ no.toList)

/-- The statements of a clause of a `switch`. -/
def clauseBody (g : Grammar) : Parse (List Node) :=
  collect fun _ => do
    let k ← kind
    if k.isWord "case" || k.isWord "default" || k.isPunct "\x7d" then return none
    some <$> within (fun c => { c with topLevel := false }) (g.stmt true)

/-- The clauses of a `switch`. -/
def switchClauses (g : Grammar) : Parse (List Node) :=
  collect fun acc => do
    let start ← curPos
    if ← eatWord "case" then
      let test ← allowIn (expr g)
      expect ":"
      let body ← clauseBody g
      return some (.mk (← spanFrom start) .caseClause (test :: body))
    if ← eatWord "default" then
      if acc.any (·.tag == .defaultClause) then failHere .multipleDefaults
      expect ":"
      let body ← clauseBody g
      return some (.mk (← spanFrom start) .defaultClause body)
    return none

/-- A `switch` statement. -/
def switchStmt (g : Grammar) : Parse Node := do
  let start ← curPos
  bump
  let value ← parenthesized g
  expect "\x7b"
  let clauses ← within (fun c => { c with allowBreak := true }) (switchClauses g)
  expect "\x7d"
  return .mk (← spanFrom start) .switchStmt (value :: clauses)

/-! ## Exceptions -/

/-- A `catch` clause, if there is one. -/
def catchClause (g : Grammar) : Parse (Option Node) := do
  let start ← curPos
  if !(← eatWord "catch") then return none
  let param ← if ← eat "(" then do
      let p ← g.binding false
      expect ")"
      pure p
    else pure absentNode
  let body ← block g false
  return some (.mk (← spanFrom start) .catchClause [param, body])

/-- A `finally` block, if there is one. -/
def finallyBlock (g : Grammar) : Parse (Option Node) := do
  if ← eatWord "finally" then some <$> block g false else return none

/-- A `try` statement. -/
def tryStmt (g : Grammar) : Parse Node := do
  let start ← curPos
  bump
  let body ← block g false
  let handlerStart ← curPos
  let handler ← catchClause g
  let final ← finallyBlock g
  if handler.isNone && final.isNone then note (.point handlerStart) .expectedSemi
  return .mk (← spanFrom start) .tryStmt
    [body, handler.getD absentNode, final.getD absentNode]

/-- A `catch` or `finally` without its `try`: a fault, after which the clause is passed. -/
def strayHandler (g : Grammar) : Parse Node := do
  let span ← curSpan
  note span .expectedSemi
  discard <| tryCatch (catchClause g) fun _ => return none
  discard <| tryCatch (finallyBlock g) fun _ => return none
  return .mk span .exprStmt [.mk span .invalid []]

/-- A `throw` statement. -/
def throwStmt (g : Grammar) : Parse Node := do
  let start ← curPos
  bump
  if ← lineBreakBefore then failHere .lineBreakAfterThrow
  let e ← allowIn (expr g)
  expectSemi
  return .mk (← spanFrom start) .throwStmt [e]

/-! ## Jumps and labels -/

/-- A `return` statement. -/
def returnStmt (g : Grammar) : Parse Node := do
  let start ← curPos
  let read : Parse Node := do
    bump
    let value ← if ← isSemi then pure [] else (fun e => [e]) <$> allowIn (expr g)
    expectSemi
    return .mk (← spanFrom start) .returnStmt value
  let s ← read
  if !(← ctx).inFunction then note (← spanFrom start) .returnNotAllowed
  return s

/-- A `break` or `continue` statement. -/
def jumpStmt : Parse Node := do
  let start ← curPos
  let isBreak ← isAtWord "break"
  bump
  let label ← if ← eatSemi then pure none else do
    let i ← labelIdent
    expectSemi
    pure (some i)
  let span ← spanFrom start
  let c ← ctx
  let labels := (← get).labels
  let unknown := label.any fun i => !labels.contains i.name
  if isBreak then
    if unknown then note span .breakLabel
    else if !c.allowBreak then note span .breakOutside
    return .mk span (.breakStmt label) []
  if !c.allowContinue then note span .continueOutside
  else if unknown then note span .continueLabel
  return .mk span (.continueStmt label) []

/-- The declaration of a function, at the word `function`. -/
def funcDecl (g : Grammar) (start : Nat) (isAsync : Bool) : Parse Node := do
  let (name, f) ← function g start isAsync false true
  return .mk f.span (.funcDecl (name.getD ⟨"", .none⟩)) [f]

/-- The declaration of a class. -/
def classDecl (g : Grammar) : Parse Node := do
  let (name, c) ← classTail g (← curPos) true
  return .mk c.span (.classDecl (name.getD ⟨"", .none⟩)) [c]

/-- The function declaration that a label may stand before in code that is not strict. -/
def labelledFunction (g : Grammar) : Parse Node := do
  let f ← funcDecl g (← curPos) false
  if (← ctx).strict then note f.span .labelledFunctionInStrict
  match f.kids with
  | [.mk _ (.func isAsync isGenerator) _] =>
    if isAsync || isGenerator then note f.span .labelledFunction
  | _ => pure ()
  return f

/-- A labelled statement, after its colon. -/
def labelledStmt (g : Grammar) (label : Ident) : Parse Node :=
  within (fun c => { c with allowBreak := true }) do
    let isKnown := (← get).labels.contains label.name
    modify fun s => { s with labels := s.labels ++ [label.name] }
    let body ← if ← isAtWord "function" then labelledFunction g else subStmt g
    if isKnown then note label.span (.duplicateLabel label.name)
    modify fun s => { s with labels := s.labels.erase label.name }
    return .mk (← spanFrom label.span.lo) (.labeled label) [body]

/-- A `with` statement. -/
def withStmt (g : Grammar) : Parse Node := do
  let start ← curPos
  noteStrict (← curSpan) .withInStrict
  bump
  let obj ← parenthesized g
  let body ← within (fun c => { c with inFunction := true }) (subStmt g)
  return .mk (← spanFrom start) .withStmt [obj, body]

/-! ## Statements -/

/-- A statement that starts with an expression. -/
def exprStmt (g : Grammar) : Parse Node := do
  let start ← curPos
  let e ← allowIn (expr g)
  match e.tag with
  | .ident n => if ← eat ":" then return ← labelledStmt g ⟨n, e.span⟩
  | _ => pure ()
  if e.tag == .ident "interface" && (← lineBreakBefore) then
    noteStrict e.span (.invalidIdentInStrict "interface")
  if ← eatSemi then return .mk (← spanFrom start) .exprStmt [e]
  if (← kind).binaryOp?.isSome then
    note (← curSpan) .expectedSemi
    let e ← binaryRest g e
    return .mk (← spanFrom start) .exprStmt [e]
  failHere .expectedSemiAfterExpr

/-- `import` or `export` where only statements may stand: a call or a property of `import`. -/
def importStmt (g : Grammar) : Parse Node := do
  let start ← curPos
  if ← isAtWord "import" then
    let next := (← peek).kind
    if next.isPunct "(" || next.isPunct "." then
      let e ← expr g
      discard eatSemi
      return .mk (← spanFrom start) .exprStmt [e]
  failHere .importExportInScript

/-- Records a declaration where only a statement may stand. -/
def noteDeclaration (allowed : Bool) : Parse Unit := do
  if !allowed then note (← curSpan) .declarationNotAllowed

/-- A statement that starts with the given word, if the word decides it. -/
def wordStmt (g : Grammar) (allowDecl : Bool) (w : String) :
    Parse (Option Node) := do
  match w with
  | "import" | "export" => some <$> importStmt g
  | "break" | "continue" => some <$> jumpStmt
  | "debugger" =>
    let start ← curPos
    bump
    expectSemi
    return some (.mk (← spanFrom start) .debugger [])
  | "do" => some <$> doWhile g
  | "for" => some <$> forStmt g
  | "function" =>
    noteDeclaration allowDecl
    some <$> funcDecl g (← curPos) false
  | "class" =>
    noteDeclaration allowDecl
    some <$> classDecl g
  | "if" => some <$> ifStmt g false
  | "return" => some <$> returnStmt g
  | "switch" => some <$> switchStmt g
  | "throw" => some <$> throwStmt g
  | "catch" | "finally" => some <$> strayHandler g
  | "try" => some <$> tryStmt g
  | "with" => some <$> withStmt g
  | "while" => some <$> whileStmt g
  | "var" => some <$> varDecl g false
  | "const" => if allowDecl then some <$> varDecl g false else return none
  | "let" =>
    if !allowDecl then return none
    if followsLet (← peek).kind then some <$> varDecl g false else return none
  | "async" =>
    let next ← peek
    if next.kind.isWord "function" && !next.lineBreak then
      let start ← curPos
      bump
      some <$> funcDecl g start true
    else return none
  | "using" =>
    if allowDecl && (← isUsingStart) then some <$> usingDecl g (← curPos) else return none
  | "await" =>
    if !(allowDecl || (← ctx).topLevel) || !(← peek).kind.isWord "using" then return none
    let before ← get
    bump
    if ← isUsingStart then some <$> usingDecl g before.cur.span.lo
    else
      set before
      return none
  | _ => return none

/-- A statement, or a declaration if allowed. -/
def stmt (g : Grammar) (allowDecl : Bool) : Parse Node :=
  within (fun c => { c with beforeColon := false }) do
    let start ← curPos
    match ← kind with
    | .punct "\x7b" => block g false
    | .punct ";" =>
      bump
      return .mk (← spanFrom start) .empty []
    | .word w _ =>
      let c ← ctx
      if w == "await" && c.topLevel && !c.isModule then note (← curSpan) .awaitInScript
      match ← wordStmt g allowDecl w with
      | some s => return s
      | none => exprStmt g
    | _ => exprStmt g

end Parse

end EcmaLower
