import EcmaLower.Arith
import EcmaLower.Config.Fault

/-!
# Reading configuration texts

A cursor stands between two characters of a text and knows its place. A reader moves the cursor, and
leaves it where it stopped also when it fails, because a fault that does not know its place gets the
place where the reader of the whole value stopped.
-/

namespace EcmaLower.Config

/-- The rest of a text and its place. -/
structure Cursor where
  rest : List Char
  place : Place
deriving DecidableEq, Repr

/-- A reader of a configuration text. -/
abbrev Decode := EStateM Fault Cursor

/-- The place behind the next `n` bytes. -/
def placeAfter : Nat → List Char → Place → Place
  | 0, _, p => p
  | _ + 1, [], p => p
  | n + 1, c :: cs, p =>
    if c = '\n' then placeAfter n cs ⟨p.line + 1, 0⟩
    else
      let size := min c.utf8Size (n + 1)
      placeAfter (n - (c.utf8Size - 1)) cs ⟨p.line, p.column + size⟩

/-- Fails with a cause whose place is not known yet. -/
def failLater {α : Type} (c : Cause) : Decode α := throw ⟨c, none⟩

/-- Fails where the cursor stands. -/
def failHere {α : Type} (c : Cause) : Decode α := do throw ⟨c, some (← get).place⟩

/-- Fails behind the next byte. -/
def failNext {α : Type} (c : Cause) : Decode α := do
  let s ← get
  throw ⟨c, some (placeAfter 1 s.rest s.place)⟩

/-- The next character. -/
def peek : Decode (Option Char) := do return (← get).rest.head?

/-- Skips the next character. -/
def skip : Decode Unit :=
  modify fun s => match s.rest with
    | [] => s
    | c :: cs => ⟨cs, placeAfter c.utf8Size (c :: cs) s.place⟩

/-- Reads the next character. -/
def next : Decode (Option Char) := do
  let c ← peek
  skip
  return c

/-- Whether a character separates tokens. -/
def isBlank (c : Char) : Bool := c == ' ' || c == '\n' || c == '\t' || c == '\r'

/-- The cursor behind the blanks. -/
def afterBlanks : List Char → Place → Cursor
  | [], p => ⟨[], p⟩
  | c :: cs, p =>
    if isBlank c then afterBlanks cs (placeAfter 1 [c] p) else ⟨c :: cs, p⟩

/-- Skips blanks and gives the character behind them. -/
def blanks : Decode (Option Char) := do
  modify fun s => afterBlanks s.rest s.place
  peek

/-- Gives a fault without a place the place where the reader stopped. -/
def placed {α : Type} (r : Decode α) : Decode α :=
  tryCatch r fun f => match f.place with
    | some _ => throw f
    | none => failHere f.cause

/-- Runs a reader and keeps its fault as a value. -/
def attempt {α : Type} (r : Decode α) : Decode (Except Fault α) :=
  tryCatch (Except.ok <$> r) fun f => return Except.error f

/-- Runs two readers one after the other, the second also if the first one fails; the first fault
counts. -/
def andThenAlways {α : Type} (r : Decode α) (after : Decode Unit) : Decode α := do
  let result ← attempt r
  let ended ← attempt after
  match result, ended with
  | .ok a, .ok _ => return a
  | .error f, _ => throw f
  | _, .error f => throw f

/-- Reads the given characters of a word. -/
def word : List Char → Decode Unit
  | [] => pure ()
  | c :: cs => do
    match ← next with
    | none => failHere .eofInValue
    | some d => if d = c then word cs else failHere .expectedIdent

/-! ## Strings -/

/-- The value of a hexadecimal digit. -/
def hexValue? (c : Char) : Option Nat :=
  let n := c.toNat
  if 48 ≤ n && n ≤ 57 then some (n - 48)
  else if 97 ≤ n && n ≤ 102 then some (n - 87)
  else if 65 ≤ n && n ≤ 70 then some (n - 55)
  else none

/-- The number that four hexadecimal digits write. -/
def hexUnit? : List Char → Option Nat
  | [a, b, c, d] => do
    return (← hexValue? a) * 4096 + (← hexValue? b) * 256 + (← hexValue? c) * 16 + (← hexValue? d)
  | _ => none

/-- The number of bytes of a text. -/
def byteCount (cs : List Char) : Nat := total Char.utf8Size cs

/-- Reads four hexadecimal digits. -/
def hexUnit : Decode Nat := do
  let s ← get
  match hexUnit? (s.rest.take 4) with
  | some n =>
    set (⟨s.rest.drop 4, placeAfter 4 s.rest s.place⟩ : Cursor)
    return n
  | none =>
    if byteCount s.rest < 4 then
      throw ⟨.eofInString, some (placeAfter (byteCount s.rest) s.rest s.place)⟩
    else throw ⟨.invalidEscape, some (placeAfter 4 s.rest s.place)⟩

/-- Reads a character that the second escape of a surrogate pair has to have. -/
def pairChar (c : Char) : Decode Unit := do
  match ← peek with
  | none => failHere .eofInString
  | some d => if d = c then skip else failNext .unfinishedEscape

/-- Reads the rest of an escape `\uXXXX`, or of two of them that make a surrogate pair. -/
def unicodeEscape : Decode Char := do
  let n ← hexUnit
  if 0xdc00 ≤ n && n ≤ 0xdfff then failHere .loneSurrogate
  else if n < 0xd800 || 0xdbff < n then return Char.ofNat n
  else
    pairChar '\\'
    pairChar 'u'
    let m ← hexUnit
    if m < 0xdc00 || 0xdfff < m then failHere .loneSurrogate
    else return Char.ofNat (0x10000 + (n - 0xd800) * 0x400 + (m - 0xdc00))

/-- Reads an escape after its backslash. -/
def escape : Decode Char := do
  match ← next with
  | none => failHere .eofInString
  | some '"' => return '"'
  | some '\\' => return '\\'
  | some '/' => return '/'
  | some 'b' => return '\x08'
  | some 'f' => return '\x0c'
  | some 'n' => return '\n'
  | some 'r' => return '\r'
  | some 't' => return '\t'
  | some 'u' => unicodeEscape
  | some _ => failHere .invalidEscape

/-- Reads the characters of a string up to its closing quote, at most as many as the first argument
says. -/
def stringChars : Nat → Decode (List Char)
  | 0 => failHere .eofInString
  | n + 1 => do
    match ← next with
    | none => failHere .eofInString
    | some '"' => return []
    | some '\\' =>
      let c ← escape
      return c :: (← stringChars n)
    | some c =>
      if c.toNat < 32 then failHere .controlCharacter
      else return c :: (← stringChars n)

/-- Reads a string after its opening quote. -/
def string : Decode String := do
  return String.ofList (← stringChars ((← get).rest.length + 1))

end EcmaLower.Config
