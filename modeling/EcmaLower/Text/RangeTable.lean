/-!
# Tables of code point ranges

A property of the Unicode database is a list of closed ranges of code points. It is written down as the lengths
of its runs.
-/

namespace EcmaLower

/-- A set of code points, as closed ranges `(first, last)` in increasing order. -/
abbrev RangeTable := List (Nat × Nat)

/-- The ranges from a code point on: a gap, a range, the next gap and so on, each by its length. -/
def RangeTable.ofRuns (first : Nat) : List Nat → RangeTable
  | gap :: length :: runs =>
    (first + gap, first + gap + length - 1) :: ofRuns (first + gap + length) runs
  | _ => []

/-- Whether a code point lies in one of the ranges. -/
def RangeTable.contains (t : RangeTable) (n : Nat) : Bool :=
  t.any fun r => r.1 ≤ n && n ≤ r.2

end EcmaLower
