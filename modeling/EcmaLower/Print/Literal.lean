import EcmaLower.Decimal.Shortest
import EcmaLower.Print.Writer
import EcmaLower.Syntax.Node

/-!
# Printing literals

Literals are printed as they were written, unless the target version lacks the notation. Strings
that have no source text are quoted with the quote that needs fewer escapes.
-/

namespace EcmaLower

/-! ## Strings -/

/-- The escape of a byte: `\x` and two lower-case digits. -/
def byteEscape (n : Nat) : List Char :=
  let ds := Nat.toDigits 16 n
  ['\\', 'x'] ++ List.replicate (2 - ds.length) '0' ++ ds

/-- The escape of a 16-bit unit: `\u` and four upper-case digits. -/
def unitEscape (n : Nat) : List Char :=
  let ds := (Nat.toDigits 16 n).map Char.toUpper
  ['\\', 'u'] ++ List.replicate (4 - ds.length) '0' ++ ds

/-- One code point of a quoted string. A lone surrogate is a code point of its own; NUL is written
longer before a digit. -/
def quotedPoint (target : Target) (quote : Char) (next : Option Nat) (n : Nat) : List Char :=
  if n == 0x08 then ['\\', 'b']
  else if n == 0x0c then ['\\', 'f']
  else if n == 0x0a then ['\\', 'n']
  else if n == 0x0d then ['\\', 'r']
  else if n == 0x0b then ['\\', 'v']
  else if n == 0x09 then ['\t']
  else if n == 0x5c then ['\\', '\\']
  else if n == quote.toNat then ['\\', quote]
  else if n == 0 then
    if next.any fun d => 48 ≤ d && d ≤ 57 then ['\\', 'x', '0', '0'] else ['\\', '0']
  else if n < 0x20 then byteEscape n
  else if n < 0x7f then [Char.ofNat n]
  else if n ≤ 0xff then
    match target with
    | .es5 => byteEscape n
    | .latest => [Char.ofNat n]
  else if n == 0x2028 || n == 0x2029 || n == 0xfeff || (0xd800 ≤ n && n ≤ 0xdfff) then
    unitEscape n
  else if 0xffff < n then
    match target with
    | .es5 =>
      let v := n - 0x10000
      unitEscape (0xd800 + v / 0x400) ++ unitEscape (0xdc00 + v % 0x400)
    | .latest => [Char.ofNat n]
  else [Char.ofNat n]

/-- The code points of a quoted string. -/
def quotedPoints (target : Target) (quote : Char) : List Nat → List Char
  | [] => []
  | n :: rest => quotedPoint target quote rest.head? n ++ quotedPoints target quote rest

/-- A string in quotes: single ones if it holds more double than single ones. -/
def quoteUnits (target : Target) (us : Units) : String :=
  let points := Units.codePoints us
  let quote := if points.count 0x27 < points.count 0x22 then '\'' else '"'
  String.ofList (quote :: quotedPoints target quote points ++ [quote])

/-- Whether a text contains `\u{`. -/
def hasBraceEscape : List Char → Bool
  | '\\' :: 'u' :: '\x7b' :: _ => true
  | _ :: cs => hasBraceEscape cs
  | [] => false

/-- The text of a string literal. -/
def strText (target : Target) (s : StrLit) : String :=
  match s.raw with
  | some raw =>
    let isDirective := s.value == Units.ofString "use strict" && raw.toList.contains '\\'
    if isDirective || target == .latest || !hasBraceEscape raw.toList then raw
    else quoteUnits target s.value
  | none => quoteUnits target s.value

/-- Line ends as U+000A. -/
def normalizeLines : List Char → List Char
  | [] => []
  | '\r' :: '\n' :: cs => '\n' :: normalizeLines cs
  | '\r' :: cs => '\n' :: normalizeLines cs
  | c :: cs => c :: normalizeLines cs

/-- The text of a literal part of a template without a tag: what line end is written does not matter,
since it is always read as U+000A. A tag can see the difference. -/
def quasiText (q : Quasi) : String := String.ofList (normalizeLines q.raw.toList)

/-! ## Numbers -/

/-- The radix that a number is written in, if it is 2 or 8. -/
def smallRadix? : List Char → Option Nat
  | '0' :: 'b' :: _ :: _ | '0' :: 'B' :: _ :: _ => some 2
  | '0' :: 'o' :: _ :: _ | '0' :: 'O' :: _ :: _ => some 8
  | _ => none

/-- The value of the digits after the radix mark, separators left out. -/
def radixValue (radix : Nat) (cs : List Char) : Nat :=
  (cs.filter Char.isDigit).foldl (fun n c => n * radix + (c.toNat - 48)) 0

/-- A text without digit separators. -/
def withoutSeparators (raw : String) : String :=
  String.ofList (raw.toList.filter (· != '_'))

/-- The text of a number, and whether it was converted from another radix. -/
def numParts (target : Target) : NumLit → String × Bool
  | .nat n => (toString n, true)
  | .double bits => (Shortest.numberText bits, true)
  | .written raw =>
    match target with
    | .latest => (raw, false)
    | .es5 =>
      match smallRadix? raw.toList with
      | some radix =>
        let bits := Binary64.ofNat (radixValue radix (raw.toList.drop 2))
        if bits == Binary64.infinity then (raw, true)
        else (Shortest.numberText (UInt64.ofNat bits), true)
      | none => (withoutSeparators raw, false)

/-- The text of a number. -/
def numText (target : Target) (n : NumLit) : String := (numParts target n).1

/-- Whether a dot after a number would be read as its decimal point. -/
def needsDot (target : Target) (n : NumLit) : Bool :=
  let (text, converted) := numParts target n
  let cs := text.toList
  if converted then !cs.contains '.' && !cs.contains 'e'
  else
    let ds := cs.filter (· != '_')
    ds.all Char.isDigit && !(2 ≤ ds.length && ds.head? == some '0')

/-- The text of a big integer. -/
def bigIntText (target : Target) (raw : String) : String :=
  match target with
  | .latest => raw
  | .es5 => withoutSeparators raw

end EcmaLower
