/-!
# Comments

A comment belongs to a position of the source text: it *leads* the token that starts there or
*trails* the token that ends there. The printer takes the comments of a position out of the table
when it writes the node at that position, so that each comment is written at most once.
-/

namespace EcmaLower

/-- A comment: `//text` if `isLine`, else `/*text*/`. -/
structure Comment where
  isLine : Bool
  text : String
deriving DecidableEq, Repr

/-- The comments of a text, in source order, each with its position. -/
structure Comments where
  leading : List (Nat × Comment) := []
  trailing : List (Nat × Comment) := []

namespace Comments

/-- Adds a comment that leads the token starting at a position. -/
def addLeading (cs : Comments) (pos : Nat) (c : Comment) : Comments :=
  { cs with leading := cs.leading ++ [(pos, c)] }

/-- Adds a comment that trails the token ending at a position. -/
def addTrailing (cs : Comments) (pos : Nat) (c : Comment) : Comments :=
  { cs with trailing := cs.trailing ++ [(pos, c)] }

/-- The entries of a list at a position. -/
def entriesAt (pos : Nat) (l : List (Nat × Comment)) : List Comment :=
  (l.filter fun e => e.1 == pos).map (·.2)

/-- Takes out the comments that lead a position. -/
def takeLeading (cs : Comments) (pos : Nat) : List Comment × Comments :=
  (entriesAt pos cs.leading, { cs with leading := cs.leading.filter fun e => e.1 != pos })

/-- Takes out the comments that trail a position. -/
def takeTrailing (cs : Comments) (pos : Nat) : List Comment × Comments :=
  (entriesAt pos cs.trailing, { cs with trailing := cs.trailing.filter fun e => e.1 != pos })

end Comments

end EcmaLower
