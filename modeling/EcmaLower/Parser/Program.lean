import EcmaLower.Arith
import EcmaLower.Parser.ModuleDeclaration
import EcmaLower.Text.DisplayWidth

/-!
# Programs

The grammar refers to itself; it is closed here by a bound on the depth of nesting, which grows
with the length of the text so that no text reaches it.
-/

namespace EcmaLower

namespace Parse

/-- The grammar at a depth, built from the grammar one level below. -/
def grammar : Nat → Grammar
  | 0 =>
    { assign := failHere .outOfFuel
      unary := failHere .outOfFuel
      newExpr := failHere .outOfFuel
      heritage := failHere .outOfFuel
      binding := fun _ => failHere .outOfFuel
      stmt := fun _ => failHere .outOfFuel
      ifStmt := fun _ => failHere .outOfFuel }
  | n + 1 =>
    { assign := fun s => assign (grammar n) s
      unary := fun s => unary (grammar n) s
      newExpr := fun s => newExpr (grammar n) s
      heritage := fun s => leftHandSide (grammar n) s
      binding := fun forbidLet s => binding (grammar n) forbidLet s
      stmt := fun allowDecl s => stmt (grammar n) allowDecl s
      ifStmt := fun noElse s => ifStmt (grammar n) noElse s }

/-- The line `#!...` at the start of a text, if there is one. -/
def hashbang : Parse (Option String) := do
  match ← kind with
  | .hashbang text =>
    bump
    return some text
  | _ => return none

end Parse

/-! ## Positions of faults -/

/-- A fault with the line and the column where it starts, both from 1. -/
structure SyntaxFault where
  line : Nat
  column : Nat
  message : String
deriving DecidableEq, Repr

/-- The line of a position, and the text of that line before it. The text starts at position `pos`
with the line so far in `before`, in reverse. -/
def lineOf (target : Nat) : Nat → List Char → Nat → List Char → Nat × List Char
  | _, [], line, before => (line, before.reverse)
  | pos, c :: cs, line, before =>
    if target ≤ pos then (line, before.reverse)
    else
      let next := pos + c.utf8Size
      if c == '\n' || (c == '\r' && cs.head? != some '\n') then lineOf target next cs (line + 1) []
      else lineOf target next cs line (c :: before)

/-- Locates a fault in its text. -/
def Fault.locate (f : Fault) (text : List Char) : SyntaxFault :=
  let (line, before) := lineOf f.span.lo 1 text 1 []
  ⟨line, total columnsOf before + 1, f.cause.message⟩

/-! ## Texts -/

/-- A byte order mark at the start of a text is no part of it. -/
def dropMark (text : List Char) : List Char :=
  match text with
  | c :: cs => if c.toNat == 0xfeff then cs else text
  | [] => []

/-- A text that was read: its parts and its comments. -/
structure Parsed (α : Type) where
  /-- The line `#!...` at the start. -/
  hashbang : Option String
  body : List α
  comments : Comments
  /-- From the start of the text to the end of the last token. -/
  span : Span

/-- Reads a text in a context. The fault that stops the parse is reported, or else the first one
that was recorded. -/
def parseWith {α : Type} (ctx : Context) (body : Parse.Grammar → Parse (List α)) (text : String) :
    Except SyntaxFault (Parsed α) :=
  let chars := dropMark text.toList
  let start : ParseState :=
    { lex := { rest := chars, pos := 1, prevHi := 1 }
      cur := ⟨.eof, ⟨1, 1⟩, false⟩
      prev := ⟨1, 1⟩
      ctx := ctx }
  let run : Parse (Option String × List α) := do
    Parse.bump
    let line ← Parse.hashbang
    return (line, ← body (Parse.grammar (4 * chars.length + 16)))
  match run start with
  | .error f _ => .error (f.locate chars)
  | .ok (line, items) s =>
    match s.lex.faults.getLast? with
    | some f => .error (f.locate chars)
    | none => .ok ⟨line, items, s.lex.comments, ⟨1, s.prev.hi⟩⟩

/-- Reads a script. -/
def parseScript (text : String) : Except SyntaxFault (Parsed Node) :=
  parseWith {} (fun g => Parse.statements true false (Parse.stmt g true)) text

/-- Reads a module. -/
def parseModule (text : String) : Except SyntaxFault (Parsed ModuleItem) :=
  parseWith { isModule := true, strict := true }
    (fun g => Parse.statements true false (Parse.moduleItem g)) text

end EcmaLower
