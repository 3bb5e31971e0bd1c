/-!
# Contexts of a parse

What surrounds the text that is being read, as far as it decides what the text may be.
-/

namespace EcmaLower

/-- The surroundings of the text that is being read. -/
structure Context where
  /-- The text is a module. -/
  isModule : Bool := false
  /-- Strict code. -/
  strict : Bool := false
  /-- `in` is an operator here; it is not in the head of a `for`. -/
  includeIn : Bool := false
  /-- Directly in the body of the script or module. -/
  topLevel : Bool := true
  inFunction : Bool := false
  inGenerator : Bool := false
  inAsync : Bool := false
  inParameters : Bool := false
  inClass : Bool := false
  inField : Bool := false
  inStaticBlock : Bool := false
  /-- Some enclosing function is not an arrow. -/
  inOrdinaryFunction : Bool := false
  allowSuper : Bool := false
  allowBreak : Bool := false
  allowContinue : Bool := false
  /-- In the middle of `a ? b : c`, before the colon. -/
  beforeColon : Bool := false
  /-- In the first clause of a `for` head, with or without `await`. -/
  inForInit : Bool := false
  inForAwaitInit : Bool := false
deriving DecidableEq, Repr

end EcmaLower
