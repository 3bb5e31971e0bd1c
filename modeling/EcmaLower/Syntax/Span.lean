/-!
# Source positions

A position counts the bytes of the UTF-8 source text, starting from 1. Position 0 means "none":
nodes that the compiler builds itself stand nowhere in the source.
-/

namespace EcmaLower

/-- A range of byte positions of the source text. -/
structure Span where
  /-- First position. -/
  lo : Nat
  /-- Position after the last one. -/
  hi : Nat
deriving DecidableEq, Repr, Inhabited

namespace Span

/-- The span of a node that has no place in the source. -/
def none : Span := ⟨0, 0⟩

/-- The empty span at a position. -/
def point (p : Nat) : Span := ⟨p, p⟩

/-- From the start of one span to the end of another. -/
def through (a b : Span) : Span := ⟨a.lo, b.hi⟩

end Span

end EcmaLower
