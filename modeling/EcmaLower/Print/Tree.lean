import EcmaLower.Print.Literal
import EcmaLower.Syntax.Category

/-!
# Printing syntax trees

The layout depends on the tree only, not on how the source was laid out. Parentheses are printed
where the tree has them and nowhere else.

A node is printed either alone or *whole*: an expression or pattern with the comments that trail
it, a statement also with the end of its line.
-/

namespace EcmaLower

namespace Print

/-- Whether a node is printed alone or with what follows it. -/
inductive Extent
  | bare | whole
deriving DecidableEq, Repr

/-- How to print a node. -/
abbrev Doc := Extent → Print Unit

/-- A child beside the way to print it. -/
abbrev Child := Node × Doc

/-! ## Lists -/

/-- A list of children with commas between them. Comments that trail a child and were not written with
it come after it, before its comma. -/
def commas (parent : Span) (separator : Print Unit) : List Child → Print Unit
  | [] => pure ()
  | (k, d) :: rest => do
    d .whole
    if k.span.hi != parent.hi then remaining k.span.hi
    if !rest.isEmpty then
      text ","
      separator
      commas parent separator rest

/-- Children on one line. Comments that trail what ends right before a child come before the
child. -/
def inline (parent : Span) (ks : List Child) : Print Unit :=
  commas parent (text " ") <| ks.map fun (k, d) =>
    (k, fun extent => do
      remaining k.span.lo
      d extent)

/-- Whether the last child of a list is missing, so that a comma has to follow it. -/
def endsInHole (ks : List Child) : Bool :=
  ks.getLast?.any fun k => k.1.tag == .hole

/-- Children on lines of their own. -/
def lines (ks : List Child) : Print Unit := do
  line
  indented do
    for k in ks do
      k.2 .whole
      line
  line

/-- A name that is not a node. -/
def name (i : Ident) : Print Unit := do
  leading i.span.lo
  text i.name

/-- A name after a space, if there is one. -/
def optName (i : Option Ident) : Print Unit := do
  match i with
  | some i =>
    text " "
    name i
  | none => pure ()

/-! ## Expressions -/

/-- Whether a comment before an expression, or before its leftmost part, ends a line. -/
def startsWithLineComment (e : Node) : Print Bool :=
  e.fold fun span t ks => do
    if ← hasLineComment span.lo then return true
    match t, ks with
    | .call, (_, r) :: _ | .member, (_, r) :: _ | .binary _, (_, r) :: _ | .cond, (_, r) :: _
    | .seq, (_, r) :: _ | .assign _, (_, r) :: _ | .optMember _, (_, r) :: _
    | .optCall _, (_, r) :: _ | .tagged .., (_, r) :: _ | .update _ false, (_, r) :: _ => r
    | _, _ => return false

/-- The argument of `return`, `throw` or `yield`. A comment that ends a line would cut it off, so
then it is put in parentheses. -/
def argument (k : Child) : Print Unit := do
  if ← startsWithLineComment k.1 then
    text "("
    k.2 .whole
    text ")"
  else
    text " "
    k.2 .whole

/-- Whether a space keeps a prefix operator apart from its operand. -/
def needsSpace (op : UnaryOp) (operand : Node) : Bool :=
  match op, operand.tag with
  | .typeOf, _ | .void, _ | .delete, _ => true
  | .plus, .unary .plus | .plus, .update .increment true => true
  | .minus, .unary .minus | .minus, .update .decrement true => true
  | .minus, .num (.double bits) => Binary64.isNegative bits
  | _, _ => false

/-- A property access after its object, with the dot that separates it. -/
def access (key : Child) : Print Unit := do
  match key.1.tag with
  | .keyComputed => key.2 .bare
  | _ =>
    leadingBefore key.1.span.lo
    text "."
    key.2 .bare

/-- The object of a property access. -/
def accessed (obj key : Child) : Print Unit := do
  match obj.1.tag with
  | .num n =>
    obj.2 .bare
    if needsDot (← get).target n && key.1.tag != .keyComputed then
      leading (key.1.span.lo - 2)
      text "."
  | _ => obj.2 .whole

/-- The words before the parameters of a function. -/
def functionWords (func : Node) (isDecl : Bool) : Print Unit :=
  match func.tag with
  | .func isAsync isGenerator => do
    if isAsync then text "async "
    text (if isGenerator then "function*" else "function")
    if isDecl then text " "
  | _ => pure ()

/-- The parts of a template, given how a literal part is written. -/
def templateText (literal : Quasi → String) : List Quasi → List Child → Print Unit
  | [], _ => pure ()
  | q :: qs, ks => do
    text (literal q)
    match ks with
    | k :: rest =>
      text "$\x7b"
      k.2 .whole
      text "\x7d"
      templateText literal qs rest
    | [] => templateText literal qs []

/-- The text of an object literal. -/
def objectText (span : Span) (ks : List Child) : Print Unit := do
  text "\x7b"
  let multiline := !ks.isEmpty || (← hasClosingComment span)
  if multiline then line
  indented (commas span line ks)
  if multiline then line
  text "\x7d"

/-- The text of an array literal. -/
def arrayText (span : Span) (ks : List Child) : Print Unit := do
  text "["
  if !ks.isEmpty then
    line
    indented do
      commas span line ks
      if endsInHole ks then text ", "
    line
  text "]"

/-- Arguments in parentheses. -/
def argumentList (span : Span) (ks : List Child) : Print Unit := do
  text "("
  inline span ks
  text ")"

/-- The text of an expression without the comments around it. -/
def expression (span : Span) (t : Tag) (ks : List Child) : Print Unit := do
  let target := (← get).target
  match t, ks with
  | .this, _ => text "this"
  | .ident n, _ => text n
  | .null, _ => text "null"
  | .bool b, _ => text (if b then "true" else "false")
  | .num n, _ => text (numText target n)
  | .bigInt raw, _ => text (bigIntText target raw)
  | .str s, _ => text (strText target s)
  | .regex pattern flags, _ => text ("/" ++ pattern ++ "/" ++ flags)
  | .privateName n, _ => text ("#" ++ n)
  | .newTarget, _ => text "new.target"
  | .importMeta, _ => text "import.meta"
  | .array, ks => arrayText span ks
  | .object, ks => objectText span ks
  | .funcExpr n, [f] => do
    functionWords f.1 false
    optName n
    f.2 .bare
  | .arrow isAsync, [params, body] => do
    if isAsync then text "async "
    params.2 .bare
    text "=>"
    if body.1.tag == .block then body.2 .bare else indented (body.2 .whole)
  | .classExpr n, [c] => do
    text "class"
    optName n
    c.2 .bare
  | .unary op, [e] => do
    text op.text
    if needsSpace op e.1 then text " "
    e.2 .whole
  | .update op isPre, [e] => do
    if isPre then text op.text
    e.2 .whole
    if !isPre then text op.text
  | .binary op, [l, r] => do
    l.2 .whole
    text (" " ++ op.text ++ " ")
    r.2 .whole
  | .assign op, [l, r] => do
    l.2 .bare
    text (" " ++ op.text ++ " ")
    r.2 .whole
  | .cond, [test, yes, no] => do
    test.2 .whole
    text " ? "
    yes.2 .whole
    text " : "
    no.2 .whole
  | .seq, ks => do
    for (k, i) in ks.zipIdx do
      if i != 0 then text ", "
      k.2 .whole
  | .member, [obj, key] => do
    accessed obj key
    access key
  | .superMember _, [key] => do
    text "super"
    access key
  | .call, callee :: args => do
    callee.2 .whole
    argumentList span args
  | .superCall _, args => do
    text "super"
    argumentList span args
  | .importCall _ phase, args => do
    text ("import" ++ (phase.map ("." ++ ·)).getD "")
    argumentList span args
  | .new hasArgs, callee :: args => do
    text "new "
    callee.2 .whole
    if hasArgs then argumentList span args
  | .optMember optional, [obj, key] => do
    obj.2 .whole
    if optional then text "?." else if key.1.tag != .keyComputed then text "."
    key.2 .bare
  | .optCall optional, callee :: args => do
    callee.2 .whole
    if optional then text "?."
    argumentList span args
  | .template quasis, exprs => do
    text "`"
    templateText quasiText quasis exprs
    text "`"
  | .tagged quoted quasis, tag :: exprs => do
    tag.2 .whole
    leading quoted.lo
    text "`"
    templateText Quasi.raw quasis exprs
    text "`"
  | .yield delegate, ks => do
    text (if delegate then "yield*" else "yield")
    ks.forM argument
  | .await, [e] => do
    text "await "
    e.2 .whole
  | .paren, [e] => do
    text "("
    e.2 .whole
    text ")"
  | .spread, [e] => do
    text "..."
    e.2 .whole
  | _, _ => pure ()

/-! ## Functions, classes and properties -/

/-- The text of a function or class after its name. -/
def definition (span : Span) (t : Tag) (ks : List Child) : Print Unit :=
  match t, ks with
  | .func .., [params, body] => do
    params.2 .bare
    text " "
    body.2 .bare
  | .params, ks => argumentList span ks
  | .cls, members :: heritage => do
    for h in heritage do
      text " extends "
      h.2 .whole
    text " \x7b"
    members.2 .bare
    text "\x7d"
  | .members, ks => lines ks
  | _, _ => pure ()

/-- The words before the key of a method. -/
def methodWords (kind : MethodKind) (func : Node) : Print Unit :=
  match kind, func.tag with
  | .getter, _ => text "get "
  | .setter, _ => text "set "
  | .method, .func isAsync isGenerator => do
    if isAsync then text "async "
    if isGenerator then text "*"
  | .method, _ => pure ()

/-- The text of a class member. -/
def member (t : Tag) (ks : List Child) : Print Unit :=
  match t, ks with
  | .ctor, [_, params, body] => do
    text "constructor"
    params.2 .bare
    body.2 .bare
  | .method kind isStatic, [key, f] => do
    match key.1.tag with
    | .keyPrivate _ => pure ()
    | _ => leading key.1.span.lo
    if isStatic then text "static "
    methodWords kind f.1
    key.2 .bare
    f.2 .bare
  | .field isStatic, key :: value => do
    if isStatic then text "static "
    key.2 .bare
    for v in value do
      text " = "
      if v.1.tag == .seq then
        text "("
        v.2 .whole
        text ")"
      else v.2 .whole
    text ";"
  | .staticBlock, [b] => do
    text "static"
    b.2 .bare
  | .emptyMember, _ => text ";"
  | _, _ => pure ()

/-- The text of a key or of a property of an object literal. -/
def property (t : Tag) (ks : List Child) : Print Unit := do
  let target := (← get).target
  match t, ks with
  | .keyName n, _ => text n
  | .keyStr s, _ => text (strText target s)
  | .keyNum n, _ => text (numText target n)
  | .keyBigInt raw, _ => text (bigIntText target raw)
  | .keyPrivate n, _ => text ("#" ++ n)
  | .keyComputed, [e] => do
    text "["
    e.2 .whole
    text "]"
  | .shorthand n, _ => text n
  | .keyValue, [key, value] => do
    key.2 .bare
    text ": "
    value.2 .whole
  | .initShorthand n, [value] => do
    name n
    text " = "
    value.2 .whole
  | .objMethod, [key, f] => do
    methodWords .method f.1
    key.2 .bare
    text " "
    f.2 .bare
  | .getter, [key, body] => do
    text "get "
    key.2 .bare
    text " () "
    body.2 .bare
  | .setter, [key, param, body] => do
    text "set "
    key.2 .bare
    text " ("
    param.2 .whole
    text ")"
    body.2 .bare
  | _, _ => pure ()

/-! ## Patterns -/

/-- The text of a pattern without the comments around it. -/
def pattern (span : Span) (t : Tag) (ks : List Child) : Print Unit :=
  match t, ks with
  | .binding n, _ => text n
  | .arrayPat, ks => do
    text "["
    inline span ks
    if endsInHole ks then text ", "
    text "]"
  | .objectPat, [] => text "\x7b\x7d"
  | .objectPat, ks => do
    text "\x7b "
    inline span ks
    text " \x7d"
  | .restPat, [p] => do
    text "..."
    p.2 .whole
  | .assignPat, [p, value] => do
    p.2 .whole
    text " = "
    value.2 .whole
  | .patKeyValue, [key, p] => do
    key.2 .bare
    text ": "
    p.2 .whole
  | .patName n, ks => do
    name n
    for k in ks do
      text " = "
      k.2 .whole
  | _, _ => pure ()

/-! ## Statements -/

/-- The text of a block. -/
def blockText (span : Span) (ks : List Child) : Print Unit := do
  text "\x7b"
  if !ks.isEmpty || (← hasClosingComment span) then lines ks
  leadingBefore span.hi
  text "\x7d"

/-- A child that may be absent, after a space. -/
def optional (k : Child) : Print Unit :=
  if k.1.tag == .absent then pure () else do
    text " "
    k.2 .whole

/-- The first clause of a `for`: a declaration has no semicolon of its own there. -/
def forInit (k : Child) : Print Unit :=
  match k.1.tag with
  | .absent => pure ()
  | .varDecl _ => k.2 .bare
  | _ => k.2 .whole

/-- The text of a jump with its label. -/
def jump (word : String) (label : Option Ident) : Print Unit := do
  text word
  optName label
  text ";"

/-- The text of a loop. -/
def loop (t : Tag) (ks : List Child) : Print Unit := do
  let target := (← get).target
  match t, ks with
  | .whileStmt, [test, body] => do
    text "while("
    test.2 .whole
    text ")"
    body.2 .whole
  | .doWhile, [test, body] => do
    text "do "
    body.2 .whole
    text "while ("
    test.2 .whole
    text (if target == .es5 then ");" else ")")
  | .forStmt, [init, test, update, body] => do
    text "for("
    forInit init
    text ";"
    optional test
    text ";"
    optional update
    text ")"
    body.2 .whole
  | .forIn, [left, right, body] => do
    text "for("
    forInit left
    text " in "
    right.2 .whole
    text ")"
    body.2 .whole
  | .forOf isAwait, [left, right, body] => do
    text (if isAwait then "for await (" else "for (")
    forInit left
    text " of "
    right.2 .whole
    text ")"
    body.2 .whole
  | _, _ => pure ()

/-- The text of a `switch` or of one of its clauses. -/
def switchText (t : Tag) (ks : List Child) : Print Unit :=
  let body (ks : List Child) : Print Unit := do
    line
    indented do
      for k in ks do
        k.2 .whole
        line
  match t, ks with
  | .switchStmt, value :: clauses => do
    text "switch("
    value.2 .whole
    text ")\x7b"
    lines clauses
    text "\x7d"
  | .caseClause, test :: stmts => do
    text "case "
    test.2 .whole
    text ":"
    body stmts
  | .defaultClause, stmts => do
    text "default:"
    body stmts
  | _, _ => pure ()

/-- The text of a `try` statement or of its `catch` clause. -/
def tryText (t : Tag) (ks : List Child) : Print Unit :=
  match t, ks with
  | .tryStmt, [body, handler, final] => do
    text "try "
    body.2 .bare
    if handler.1.tag != .absent then
      text " "
      handler.2 .bare
    if final.1.tag != .absent then
      text " finally"
      final.2 .bare
  | .catchClause, [param, body] => do
    text "catch "
    if param.1.tag != .absent then
      text "("
      param.2 .whole
      text ")"
    text " "
    body.2 .bare
  | _, _ => pure ()

/-- The text of a statement without the comments around it. -/
def statement (span : Span) (t : Tag) (ks : List Child) (extent : Extent) : Print Unit :=
  match t, ks with
  | .exprStmt, [e] => do
    -- Comments at the end of the statement come after its semicolon.
    keeping span.hi (e.2 .whole)
    text ";"
  | .block, ks => blockText span ks
  | .empty, _ => text ";"
  | .debugger, _ => text "debugger;"
  | .withStmt, [obj, body] => do
    text "with ("
    obj.2 .whole
    text ")"
    body.2 .whole
  | .returnStmt, ks => do
    text "return"
    ks.forM argument
    text ";"
  | .throwStmt, ks => do
    text "throw"
    ks.forM argument
    text ";"
  | .labeled label, [body] => do
    name label
    text ": "
    body.2 .whole
  | .breakStmt label, _ => jump "break" label
  | .continueStmt label, _ => jump "continue" label
  | .ifStmt, test :: yes :: no => do
    text "if ("
    test.2 .whole
    text ") "
    yes.2 .whole
    for k in no do
      if yes.1.tag == .block then text " "
      text "else "
      k.2 .whole
  | .varDecl kind, ks => do
    text (kind.text ++ " ")
    inline span ks
    if extent == .whole then text ";"
  | .declarator, p :: value => do
    p.2 .whole
    for v in value do
      text " = "
      v.2 .whole
  | .funcDecl n, [f] => do
    functionWords f.1 true
    name n
    f.2 .bare
  | .classDecl n, [c] => do
    text "class "
    name n
    c.2 .bare
  | _, _ => pure ()

/-! ## Nodes -/

/-- The text of a node that is a part of others. -/
def part (span : Span) (t : Tag) (ks : List Child) (extent : Extent) : Print Unit :=
  match t with
  | .spread => expression span t ks
  | .func .. | .params | .cls | .members => definition span t ks
  | .ctor | .method .. | .field _ | .staticBlock | .emptyMember => member t ks
  | .patKeyValue | .patName _ => pattern span t ks
  | .caseClause | .defaultClause => switchText t ks
  | .catchClause => tryText t ks
  | .declarator => statement span t ks extent
  | _ => property t ks

/-- The text of a statement of any kind. -/
def anyStatement (span : Span) (t : Tag) (ks : List Child) (extent : Extent) : Print Unit :=
  match t with
  | .whileStmt | .doWhile | .forStmt | .forIn | .forOf _ => loop t ks
  | .switchStmt => switchText t ks
  | .tryStmt => tryText t ks
  | _ => statement span t ks extent

/-- Whether a node prints the comments that lead its start. -/
def printsLeading : Tag → Bool
  | .keyComputed | .params | .func .. | .cls | .members | .hole | .absent | .withStmt => false
  | _ => true

/-- One node: the comments before it, its text, and, if it is printed whole, what follows it. -/
def step (span : Span) (t : Tag) (ks : List Child) : Doc := fun extent => do
  if printsLeading t then leading span.lo
  match t.category with
  | .expression =>
    expression span t ks
    if extent == .whole then trailing span.hi
  | .pattern =>
    pattern span t ks
    if extent == .whole then trailing span.hi
  | .statement =>
    anyStatement span t ks extent
    if extent == .whole && t != .block then
      trailing span.hi
      line
  | .part => part span t ks extent

/-- The printer. -/
def tree (n : Node) : Doc := n.fold step

end Print

end EcmaLower
