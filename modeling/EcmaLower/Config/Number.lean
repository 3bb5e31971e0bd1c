import EcmaLower.Config.Cursor
import EcmaLower.Decimal.Shortest

/-!
# Numbers in configuration texts

No option is a number, so numbers are read only to say what was found. A whole number of 64 bits is
shown as it is; any other one is shown as a binary64 value, computed from its first digits and a power
of ten.
-/

namespace EcmaLower.Config

/-- The largest whole number of 64 bits. -/
def maxUnsigned : Nat := twoTo 64 - 1

/-- The bits of a power of ten. -/
def powerOfTen (n : Nat) : Nat := Binary64.ofNat (tenTo n)

/-- Divides a value by a power of ten, in steps that have a value. -/
def scaleDown : (steps : Nat) → (bits exponent : Nat) → Nat
  | 0, bits, _ => bits
  | steps + 1, bits, exponent =>
    if exponent ≤ 308 then Binary64.div bits (powerOfTen exponent)
    else if bits = 0 then bits
    else scaleDown steps (Binary64.div bits (powerOfTen 308)) (exponent - 308)

/-- The value `significand * 10 ^ exponent` with a sign. -/
def decimalValue (negative : Bool) (significand : Nat) (exponent : Int) : Decode Found := do
  let base := Binary64.ofNat significand
  let bits ←
    if exponent < 0 then pure (scaleDown (exponent.natAbs / 308 + 1) base exponent.natAbs)
    else if exponent ≤ 308 then
      let bits := Binary64.mul base (powerOfTen exponent.toNat)
      if bits = Binary64.infinity then failHere .numberOutOfRange else pure bits
    else if base = 0 then pure base
    else failHere .numberOutOfRange
  let bits := if negative then bits + twoTo 63 else bits
  return .decimal (Shortest.messageStyle.text (UInt64.ofNat bits))

/-- The value of a digit. -/
def digit? (c : Option Char) : Option Nat :=
  c.bind fun c => if c.isDigit then some (c.toNat - 48) else none

/-- Reads digits into a number, as long as it does not grow beyond a bound. Gives the number, how
many digits it took, and whether a digit was left because of the bound. -/
def digits (bound : Nat) : (steps : Nat) → (value count : Nat) → Decode (Nat × Nat × Bool)
  | 0, value, count => return (value, count, false)
  | steps + 1, value, count => do
    match digit? (← peek) with
    | some d =>
      if bound < value * 10 + d then return (value, count, true)
      skip
      digits bound steps (value * 10 + d) (count + 1)
    | none => return (value, count, false)

/-- Skips digits and gives their number. -/
def skipDigits : Decode Nat := do
  let run := ((← get).rest.takeWhile Char.isDigit).length
  modify fun s => ⟨s.rest.drop run, placeAfter run s.rest s.place⟩
  return run

/-- Reads an exponent and gives the number. -/
def exponent (negative : Bool) (significand : Nat) (start : Int) : Decode Found := do
  skip
  let isDown ← match ← peek with
    | some '+' => do skip; pure false
    | some '-' => do skip; pure true
    | _ => pure false
  match ← next with
  | none => failHere .eofInValue
  | some c =>
    match digit? (some c) with
    | none => failHere .invalidNumber
    | some d =>
      let (e, _, isCut) ← digits (twoTo 31 - 1) ((← get).rest.length) d 0
      if isCut then
        skip
        if significand ≠ 0 && !isDown then failHere .numberOutOfRange
        else
          let _ ← skipDigits
          decimalValue negative 0 0
      else decimalValue negative significand (if isDown then start - e else start + e)

/-- Reads what follows the digits of a number that is not whole. -/
def scaled (negative : Bool) (significand : Nat) (start : Int) : Decode Found := do
  match ← peek with
  | some 'e' | some 'E' => exponent negative significand start
  | _ => decimalValue negative significand start

/-- Reads the digits behind a point. -/
def fraction (negative : Bool) (significand : Nat) (start : Int) : Decode Found := do
  skip
  let (value, count, isCut) ← digits maxUnsigned ((← get).rest.length) significand 0
  if isCut then
    let _ ← skipDigits
    scaled negative value (start - count)
  else if count = 0 then
    match ← peek with
    | some _ => failNext .invalidNumber
    | none => failNext .eofInValue
  else scaled negative value (start - count)

/-- A whole number of 64 bits, or its value if it does not fit or is a negative zero. -/
def wholeNumber (negative : Bool) (n : Nat) : Decode Found :=
  if negative then
    if n = 0 || twoTo 63 < n then decimalValue true n 0
    else return .integer ("-" ++ toString n)
  else return .integer (toString n)

/-- Reads what follows the digits before a point. -/
def afterWhole (negative : Bool) (n : Nat) : Decode Found := do
  match ← peek with
  | some '.' => fraction negative n 0
  | some 'e' | some 'E' => exponent negative n 0
  | _ => wholeNumber negative n

/-- Reads a number after its sign. -/
def number (negative : Bool) : Decode Found := do
  match ← next with
  | none => failHere .eofInValue
  | some '0' =>
    match digit? (← peek) with
    | some _ => failNext .invalidNumber
    | none => afterWhole negative 0
  | some c =>
    match digit? (some c) with
    | none => failHere .invalidNumber
    | some d =>
      let (n, _, isCut) ← digits maxUnsigned ((← get).rest.length) d 0
      if isCut then
        let dropped ← skipDigits
        match ← peek with
        | some '.' => fraction negative n dropped
        | _ => scaled negative n dropped
      else afterWhole negative n

end EcmaLower.Config
