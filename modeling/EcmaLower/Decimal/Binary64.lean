import EcmaLower.Arith

/-!
# Binary floating point

Numbers of the language are binary64 values. They are handled by their bits: a value is a natural
number of 53 bits times a power of two, and a ratio of natural numbers is rounded to the nearest
one, a tie going to the even neighbour.
-/

namespace EcmaLower.Binary64

/-- A quotient rounded to the nearest natural number, a tie going to the even one. -/
def roundDiv (num den : Nat) : Nat :=
  let q := num / den
  let r := num % den
  if den < 2 * r || (2 * r == den && q % 2 == 1) then q + 1 else q

/-- `num / den * 2 ^ (-e)` as a pair of natural numbers. -/
def scaled (num den : Nat) (e : Int) : Nat × Nat :=
  if e < 0 then (num * twoTo (-e).toNat, den) else (num, den * twoTo e.toNat)

/-- The least exponent `e`, not below that of the subnormals, for which `num / den * 2 ^ (-e)` is
less than `2 ^ 53`. -/
def exponentOf (num den : Nat) : Int :=
  let e : Int := (Nat.log2 num : Int) - (Nat.log2 den : Int) - 53
  let (n, d) := scaled num den e
  let e := if n < d * twoTo 53 then e else e + 1
  max e (-1074)

/-- The bits of infinity. -/
def infinity : Nat := 0x7ff0000000000000

/-- The bits of the nonnegative value that is nearest to a ratio. -/
def ofRatio (num den : Nat) : Nat :=
  if num == 0 then 0
  else
    let e := exponentOf num den
    let (n, d) := scaled num den e
    let q := roundDiv n d
    let bits := if q < twoTo 52 then q else (e + 1075).toNat * twoTo 52 + (q - twoTo 52)
    min bits infinity

/-- The bits of the value nearest to a natural number. -/
def ofNat (n : Nat) : Nat := ofRatio n 1

/-- The bits of the value nearest to `mantissa * 10 ^ exponent`, with its sign. -/
def ofDecimal (negative : Bool) (mantissa : Nat) (exponent : Int) : UInt64 :=
  let bits := if exponent < 0 then ofRatio mantissa (tenTo (-exponent).toNat)
    else ofNat (mantissa * tenTo exponent.toNat)
  UInt64.ofNat (if negative then bits + twoTo 63 else bits)

/-- Whether a value has its sign bit set. -/
def isNegative (bits : UInt64) : Bool := twoTo 63 ≤ bits.toNat

/-- The magnitude of a finite value as `m * 2 ^ q`. -/
def parts (bits : UInt64) : Nat × Int :=
  let b : Nat := bits.toNat % twoTo 63
  let field : Nat := b / twoTo 52
  let fraction := b % twoTo 52
  if field == 0 then (fraction, -1074) else (twoTo 52 + fraction, Int.ofNat field - 1075)

/-- The magnitude of a finite value as a ratio. -/
def ratio (bits : Nat) : Nat × Nat :=
  let (m, q) := parts (UInt64.ofNat bits)
  (m * twoTo q.toNat, twoTo (-q).toNat)

/-- The product of two nonnegative values, rounded. -/
def mul (a b : Nat) : Nat :=
  let (n, d) := ratio a
  let (n', d') := ratio b
  ofRatio (n * n') (d * d')

/-- The quotient of two nonnegative values, rounded. -/
def div (a b : Nat) : Nat :=
  let (n, d) := ratio a
  let (n', d') := ratio b
  ofRatio (n * d') (d * n')

end EcmaLower.Binary64
