import EcmaLower.Syntax.Node

/-!
# Scripts
-/

namespace EcmaLower

/-- A script. -/
structure Script where
  /-- The line `#!...` at the start. -/
  hashbang : Option String := none
  body : List Node
  span : Span := .none

/-- A script without its source positions. -/
def Script.erase (s : Script) : Script :=
  { s with body := s.body.map Node.erase, span := .none }

end EcmaLower
