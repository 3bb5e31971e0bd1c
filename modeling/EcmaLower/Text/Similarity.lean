/-!
# Similarity of texts

The Jaro similarity of two texts: letters match if they are equal and not further apart than half the
longer text, each letter at most once; the similarity is the mean of the share of matched letters in
each text and of the share of matches that stand in the same order.
-/

namespace EcmaLower.Similarity

/-- Marks the first unmarked letter `c` at a position from `lo` up to `hi`; `i` is the position of the
head. None if there is no such letter. -/
def mark (c : Char) (lo hi : Nat) : Nat → List (Char × Bool) → Option (List (Char × Bool))
  | _, [] => none
  | i, (d, used) :: rest =>
    if lo ≤ i && i < hi && d == c && !used then some ((d, true) :: rest)
    else (mark c lo hi (i + 1) rest).map ((d, used) :: ·)

/-- Matches the letters of a text, from position `i` on, with those of another one; gives the letters
that found a match and the marks. -/
def matchUp (range : Nat) : Nat → List Char → List (Char × Bool) → List Char × List (Char × Bool)
  | _, [], marks => ([], marks)
  | i, c :: cs, marks =>
    match mark c (i - range) (i + range + 1) 0 marks with
    | some marks =>
      let (found, marks) := matchUp range (i + 1) cs marks
      (c :: found, marks)
    | none => matchUp range (i + 1) cs marks

/-- The similarity of two texts, as a numerator and a denominator. -/
def jaro (a b : List Char) : Nat × Nat :=
  let la := a.length
  let lb := b.length
  if la == 0 && lb == 0 then (1, 1)
  else
    let (found, marks) := matchUp (max la lb / 2 - 1) 0 a (b.map (·, false))
    let m := found.length
    if m == 0 then (0, 1)
    else
      let other := (marks.filter (·.2)).map (·.1)
      let t := ((found.zip other).filter fun (x, y) => x != y).length / 2
      (m * m * lb + m * m * la + (m - t) * la * lb, 3 * m * la * lb)

/-- Whether the similarity of two texts is more than 7/10. -/
def isClose (a b : List Char) : Bool :=
  let (n, d) := jaro a b
  7 * d < 10 * n

/-- Whether the similarity of the first two texts is at most that of the last two. -/
def atMost (a b a' b' : List Char) : Bool :=
  let (n, d) := jaro a b
  let (n', d') := jaro a' b'
  n * d' ≤ n' * d

end EcmaLower.Similarity
