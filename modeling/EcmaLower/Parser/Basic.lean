import EcmaLower.Parser.Lexer
import EcmaLower.Syntax.Node

/-!
# The state of a parse

A parse holds the current token, at most one token after it, and the context. A fault either stops
the parse or is recorded and the parse goes on; a text with any fault is rejected in the end, but
which fault is reported depends on the difference: one that stops the parse comes before all
recorded ones, and of those the first is reported.
-/

namespace EcmaLower

/-- The state of a parse. -/
structure ParseState where
  lex : LexState
  /-- The current token. -/
  cur : Token
  /-- The token after it, if it was looked at. -/
  next : Option Token := none
  /-- The span of the last token that was passed. -/
  prev : Span
  ctx : Context
  /-- The labels of the enclosing statements of the function. -/
  labels : List String := []
  /-- Trailing commas of array and object literals, by the start of the literal. -/
  trailingCommas : List (Nat × Span) := []
  /-- Where an arrow function may start. -/
  arrowStart : Option Nat := none

/-- A parse, which may stop with a fault; the state is kept when it stops. -/
abbrev Parse := EStateM Fault ParseState

namespace Parse

/-! ## Tokens -/

/-- Runs a reader of tokens. -/
def lex {α : Type} (r : Lex α) : Parse α := fun s =>
  match r s.lex with
  | .ok a l => .ok a { s with lex := l }
  | .error e l => .error e { s with lex := l }

/-- The context. -/
def ctx : Parse Context := return (← get).ctx

/-- The current token. -/
def cur : Parse Token := return (← get).cur

/-- The kind of the current token. -/
def kind : Parse TokenKind := return (← get).cur.kind

/-- The start of the current token. -/
def curPos : Parse Nat := return (← get).cur.span.lo

/-- The span of the current token. -/
def curSpan : Parse Span := return (← get).cur.span

/-- The span of the last token that was passed. -/
def prevSpan : Parse Span := return (← get).prev

/-- From a position to the end of the last token that was passed. -/
def spanFrom (start : Nat) : Parse Span := return ⟨start, (← get).prev.hi⟩

/-- Whether a line break precedes the current token. -/
def lineBreakBefore : Parse Bool := return (← get).cur.lineBreak

/-- Passes the current token. -/
def bump : Parse Unit := do
  let s ← get
  match s.next with
  | some t => set { s with prev := s.cur.span, cur := t, next := none }
  | none =>
    let t ← lex (Lex.nextToken s.ctx)
    modify fun s => { s with prev := s.cur.span, cur := t }

/-- Looks at the token after the current one. -/
def peek : Parse Token := do
  let s ← get
  match s.next with
  | some t => return t
  | none =>
    if s.cur.kind.isEof then return s.cur
    let t ← lex (Lex.nextToken s.ctx)
    modify fun s => { s with next := some t }
    return t

/-- Whether the current token is the given punctuation. -/
def isAt (t : String) : Parse Bool := return (← kind).isPunct t

/-- Whether the current token is the given word. -/
def isAtWord (w : String) : Parse Bool := return (← kind).isWord w

/-- Passes the current token if it is the given punctuation. -/
def eat (t : String) : Parse Bool := do
  if ← isAt t then
    bump
    return true
  return false

/-- Passes the current token if it is the given word. -/
def eatWord (w : String) : Parse Bool := do
  if ← isAtWord w then
    bump
    return true
  return false

/-! ## Faults -/

/-- Records a fault as it is. -/
def record (f : Fault) : Parse Unit :=
  modify fun s => { s with lex := s.lex.addFault f }

/-- Passes an error token and records its fault. -/
def recordErrorToken : Parse Unit := do
  match ← kind with
  | .error f =>
    bump
    record f
  | _ => pure ()

/-- Records a fault; that of an error token at hand comes first. -/
def noteFault (f : Fault) : Parse Unit := do
  recordErrorToken
  record f

/-- Records a fault and goes on. -/
def note (span : Span) (cause : Cause) : Parse Unit := noteFault ⟨span, cause⟩

/-- Records a fault of strict code. -/
def noteStrict (span : Span) (cause : Cause) : Parse Unit := do
  let c ← ctx
  if c.strict || c.isModule then record ⟨span, cause⟩

/-- Stops the parse with a fault. -/
def fail {α : Type} (span : Span) (cause : Cause) : Parse α := do
  recordErrorToken
  throw ⟨span, cause⟩

/-- Stops the parse with a fault at the current token. -/
def failHere {α : Type} (cause : Cause) : Parse α := do
  fail (← curSpan) cause

/-- Stops the parse because the current token is not one of those that were expected. -/
def unexpected {α : Type} (wanted : String) : Parse α := do
  failHere (.unexpected (← kind).describe wanted)

/-- Stops the parse with the fault of an error token, if the current token is one. -/
def failOnErrorToken : Parse Unit := do
  match ← kind with
  | .error f =>
    bump
    throw f
  | _ => pure ()

/-- Passes the given punctuation, or stops. -/
def expect (t : String) : Parse Unit := do
  if !(← eat t) then failHere (.expected t (← kind).describe)

/-- Passes the given word, or stops. -/
def expectWord (w : String) : Parse Unit := do
  if !(← eatWord w) then failHere (.expected w (← kind).describe)

/-- Whether a statement may end here: at `;`, before `}`, at the end, or after a line break. -/
def isSemi : Parse Bool := do
  let k ← kind
  return k.isPunct ";" || k.isPunct "\x7d" || k.isEof || (← lineBreakBefore)

/-- Ends a statement, passing a `;`; says whether it may end here. -/
def eatSemi : Parse Bool := do
  if ← eat ";" then return true
  isSemi

/-- Ends a statement, or stops. -/
def expectSemi : Parse Unit := do
  if !(← eatSemi) then failHere (.expected ";" (← kind).describe)

/-! ## Contexts and repetition -/

/-- Runs a parse in a changed context. -/
def within {α : Type} (change : Context → Context) (p : Parse α) : Parse α := fun s =>
  match p { s with ctx := change s.ctx } with
  | .ok a t => .ok a { t with ctx := s.ctx }
  | .error e t => .error e { t with ctx := s.ctx }

/-- `in` is an operator. -/
def allowIn {α : Type} (p : Parse α) : Parse α :=
  within (fun c => { c with includeIn := true }) p

/-- Repeats a step, which returns the next state or the result, at most the given number of
times. -/
def iterate {σ α : Type} (step : σ → Parse (σ ⊕ α)) : Nat → σ → Parse α
  | 0, _ => do failHere .outOfFuel
  | n + 1, s => do
    match ← step s with
    | .inl t => iterate step n t
    | .inr a => return a

/-- Repeats a step, each time passing at least one token. -/
def loop {σ α : Type} (init : σ) (step : σ → Parse (σ ⊕ α)) : Parse α := do
  iterate step ((← get).lex.rest.length + 8) init

/-- Collects results until a step returns none. -/
def collect {α : Type} (step : List α → Parse (Option α)) : Parse (List α) :=
  loop [] fun acc => do
    match ← step acc with
    | some a => return .inl (acc ++ [a])
    | none => return .inr acc

/-- The recursive parts of the grammar, which the parts defined from them take as an argument. -/
structure Grammar where
  /-- An assignment expression. -/
  assign : Parse Node
  /-- An operand of a binary operator. -/
  unary : Parse Node
  /-- A callee of `new`, or an expression without calls. -/
  newExpr : Parse Node
  /-- What a class extends: an operand without operators. -/
  heritage : Parse Node
  /-- A binding: a name or a pattern. A declaration by `let` or `const` may not bind `let`. -/
  binding : Bool → Parse Node
  /-- A statement; whether it may be a declaration. -/
  stmt : Bool → Parse Node
  /-- An `if` statement; whether its `else` is left to the caller. -/
  ifStmt : Bool → Parse Node

end Parse

end EcmaLower
