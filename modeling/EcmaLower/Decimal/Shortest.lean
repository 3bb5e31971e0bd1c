import EcmaLower.Decimal.Binary64

/-!
# Shortest decimals

The decimal with the fewest digits that reads back as a given binary64 value; of several, the one
nearest to the value, and of two equally near the even one.
-/

namespace EcmaLower.Shortest

/-- The rounding interval of a value, as numerators over a common denominator, and whether its ends
belong to it. -/
structure Interval where
  lo : Nat
  value : Nat
  hi : Nat
  den : Nat
  closed : Bool

/-- The reals that round to `m * 2 ^ q`. Below a power of two the neighbour is half as far. -/
def intervalOf (m : Nat) (q : Int) : Interval :=
  let below := if m == twoTo 52 && q != -1074 then 1 else 2
  let up := twoTo (q - 2).toNat
  { lo := (4 * m - below) * up
    value := 4 * m * up
    hi := (4 * m + 2) * up
    den := twoTo (2 - q).toNat
    closed := m % 2 == 0 }

/-- Whether `c * 10 ^ p` lies in an interval. -/
def Interval.contains (i : Interval) (c : Nat) (p : Int) : Bool :=
  let x := c * tenTo p.toNat * i.den
  let scale := tenTo (-p).toNat
  if i.closed then i.lo * scale ≤ x && x ≤ i.hi * scale else i.lo * scale < x && x < i.hi * scale

/-- The number `n` with `10 ^ (n - 1) ≤ value < 10 ^ n`, found from a lower bound in the given
number of steps. -/
def exponentFrom (i : Interval) : Nat → Int → Int
  | 0, n => n
  | k + 1, n =>
    if i.value * tenTo (-n).toNat < tenTo n.toNat * i.den then n else exponentFrom i k (n + 1)

/-- The two neighbours of the value with `d` digits, the nearer one first. -/
def neighbours (i : Interval) (p : Int) : List Nat :=
  let num := i.value * tenTo (-p).toNat
  let den := tenTo p.toNat * i.den
  let c := num / den
  let r := num % den
  if 2 * r < den || (2 * r == den && c % 2 == 0) then [c, c + 1] else [c + 1, c]

/-- The shortest digits `c` and their exponent `p`, with at least `d` digits and at most `k` more,
for a value below `10 ^ n`. -/
def search (i : Interval) (n : Int) : Nat → Nat → Nat × Int
  | 0, d => ((neighbours i (n - d)).headD 0, n - d)
  | k + 1, d =>
    match (neighbours i (n - d)).find? fun c => i.contains c (n - d) with
    | some c => (c, n - d)
    | none => search i n k (d + 1)

/-- The digits of a positive finite value and the exponent `n` for which the value is
`0.digits * 10 ^ n`. -/
def digits (bits : UInt64) : List Char × Int :=
  let (m, q) := Binary64.parts bits
  let i := intervalOf m q
  let n := exponentFrom i 8 (((Nat.log2 m : Int) + q) * 30103 / 100000 - 1)
  let (c, p) := search i n 16 1
  let text := Nat.toDigits 10 c
  ((text.reverse.dropWhile (· == '0')).reverse, text.length + p)

/-! ## Number texts -/

/-- How the digits of a number are laid out. -/
structure Style where
  /-- The largest number of digits before the point that are written out. -/
  maxWhole : Int
  /-- The least exponent `n` for which `0.digits * 10 ^ n` is written with zeros after the point is
  one more than this. -/
  minShift : Int
  /-- What follows a whole number that is written out. -/
  wholeEnd : List Char
  /-- What stands before an exponent that is not negative. -/
  plus : List Char

/-- Numbers in programs. -/
def programStyle : Style := ⟨21, -6, [], ['+']⟩

/-- Numbers in messages: a whole number shows its point. -/
def messageStyle : Style := ⟨16, -5, ['.', '0'], []⟩

/-- An exponent with its sign. -/
def Style.exponentText (style : Style) (x : Int) : List Char :=
  (if x < 0 then ['-'] else style.plus) ++ Nat.toDigits 10 x.natAbs

/-- The digits `ds` of the value `0.ds * 10 ^ n`, written out. -/
def Style.layout (style : Style) (ds : List Char) (n : Int) : List Char :=
  let k : Int := ds.length
  if k ≤ n && n ≤ style.maxWhole then ds ++ List.replicate (n - k).toNat '0' ++ style.wholeEnd
  else if 0 < n && n ≤ style.maxWhole then ds.take n.toNat ++ '.' :: ds.drop n.toNat
  else if style.minShift < n && n ≤ 0 then '0' :: '.' :: List.replicate (-n).toNat '0' ++ ds
  else match ds with
    | [d] => d :: 'e' :: style.exponentText (n - 1)
    | d :: rest => d :: '.' :: rest ++ 'e' :: style.exponentText (n - 1)
    | [] => []

/-- A finite value written out; the sign of zero is kept. -/
def Style.text (style : Style) (bits : UInt64) : String :=
  let sign := if Binary64.isNegative bits then ['-'] else []
  if (Binary64.parts bits).1 == 0 then String.ofList (sign ++ '0' :: style.wholeEnd)
  else
    let (ds, n) := digits bits
    String.ofList (sign ++ style.layout ds n)

/-- A finite value as a program writes it. -/
def numberText (bits : UInt64) : String := programStyle.text bits

end EcmaLower.Shortest
