import EcmaLower.Syntax.Comment
import EcmaLower.Syntax.Span

/-!
# Writing indented text

The printer writes pieces of text and line ends. An indent is written before the first piece of a
line, and an empty line is never ended again. Comments are taken from a table as the positions they
belong to are passed, so that each is written once.
-/

namespace EcmaLower

/-- The language version that is printed. -/
inductive Target
  | es5 | latest
deriving DecidableEq, Repr

/-- The state of the printer. -/
structure Writer where
  target : Target
  out : String := ""
  /-- Levels of indentation. -/
  depth : Nat := 0
  /-- Nothing has been written to the current line. -/
  atLineStart : Bool := true
  /-- The comments that have not been written. -/
  comments : Comments := {}

/-- Printing: a change of the state. -/
abbrev Print := StateM Writer

namespace Writer

/-- Adds a piece of text to the current line. -/
def write (w : Writer) (s : String) : Writer :=
  if s.isEmpty then w
  else if w.atLineStart then
    { w with
      out := w.out ++ String.ofList (List.replicate (4 * w.depth) ' ') ++ s
      atLineStart := false }
  else { w with out := w.out ++ s }

/-- Ends the current line unless it is empty. -/
def endLine (w : Writer) : Writer :=
  if w.atLineStart then w else { w with out := w.out ++ "\n", atLineStart := true }

/-- Writes a comment, after a space if it trails something. -/
def writeComment (w : Writer) (isTrailing : Bool) (c : Comment) : Writer :=
  let w := if isTrailing then w.write " " else w
  if c.isLine then (w.write ("//" ++ c.text)).endLine
  else w.write ("/*" ++ c.text ++ "*/ ")

end Writer

namespace Print

/-- Writes a piece of text. -/
def text (s : String) : Print Unit := modify fun w => w.write s

/-- Ends the current line unless it is empty. -/
def line : Print Unit := modify Writer.endLine

/-- Writes with one more level of indentation. -/
def indented (p : Print Unit) : Print Unit := do
  modify fun w => { w with depth := w.depth + 1 }
  p
  modify fun w => { w with depth := w.depth - 1 }

/-- Writes the comments that lead a position. -/
def leading (pos : Nat) : Print Unit :=
  modify fun w =>
    if pos == 0 then w
    else
      let (cs, rest) := w.comments.takeLeading pos
      cs.foldl (fun w c => w.writeComment false c) { w with comments := rest }

/-- Writes the comments that trail a position. -/
def trailing (pos : Nat) : Print Unit :=
  modify fun w =>
    if pos == 0 then w
    else
      let (cs, rest) := w.comments.takeTrailing pos
      cs.foldl (fun w c => w.writeComment true c) { w with comments := rest }

/-- Writes the comments that are left to trail a position, in the form of those that lead it. -/
def remaining (pos : Nat) : Print Unit :=
  modify fun w =>
    if pos == 0 then w
    else
      let (cs, rest) := w.comments.takeTrailing pos
      cs.foldl (fun w c => w.writeComment false c) { w with comments := rest }

/-- Writes with the comments that trail a position kept for later. -/
def keeping (pos : Nat) (p : Print Unit) : Print Unit := do
  let (kept, rest) := (← get).comments.takeTrailing pos
  modify fun w => { w with comments := rest }
  p
  modify fun w => { w with comments := kept.foldl (fun cs c => cs.addTrailing pos c) w.comments }

/-- Writes the comments that lead the last byte before a position. -/
def leadingBefore (pos : Nat) : Print Unit := leading (pos - 1)

/-- Whether comments lead the last byte of a span. -/
def hasClosingComment (s : Span) : Print Bool := do
  let cs := (← get).comments
  return s.hi != 0 && !(Comments.entriesAt (s.hi - 1) cs.leading).isEmpty

/-- Whether a comment that leads a position ends a line. -/
def hasLineComment (pos : Nat) : Print Bool := do
  let cs := Comments.entriesAt pos (← get).comments.leading
  return pos != 0 && cs.any fun c => c.isLine || c.text.toList.any fun ch =>
    ch == '\n' || ch == '\r' || ch.toNat == 0x2028 || ch.toNat == 0x2029

end Print

end EcmaLower
