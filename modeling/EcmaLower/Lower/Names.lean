import EcmaLower.Syntax.Script

/-!
# Names

A name that the compiler introduces must not meet a name of the program. The compiler collects every
name that the script binds, refers to or uses as a label, and draws its own names from what is left:
a base, then the base with a number behind it.
-/

namespace EcmaLower

/-- The names that a node itself mentions. Keys of properties and private names are not among them,
since nothing resolves them. -/
def Tag.names : Tag → List String
  | ident n | shorthand n | binding n => [n]
  | initShorthand i | patName i | labeled i | funcDecl i | classDecl i => [i.name]
  | funcExpr i | classExpr i | breakStmt i | continueStmt i => (i.map Ident.name).toList
  | _ => []

/-- The names in a tree. -/
def Node.names (n : Node) : List String :=
  n.fold fun _ t ks => t.names ++ ks.flatMap (·.2)

/-- The names in a script. -/
def Script.names (s : Script) : List String :=
  s.body.flatMap Node.names

/-- The names that can no longer be drawn. -/
structure NameSupply where
  taken : List String
deriving DecidableEq, Repr

namespace NameSupply

/-- The names of a script are taken. -/
def ofScript (s : Script) : NameSupply := ⟨s.names⟩

/-- The names tried for a base, in order: the base, then with 1, 2, … behind it. -/
def candidate (base : String) : Nat → String
  | 0 => base
  | n + 1 => base ++ toString (n + 1)

/-- The first candidate from number `n` on that is not taken, after at most `steps` taken ones. -/
def firstFree (taken : List String) (base : String) : (steps n : Nat) → String
  | 0, n => candidate base n
  | steps + 1, n =>
    if taken.contains (candidate base n) then firstFree taken base steps (n + 1)
    else candidate base n

/-- Draws a name that is not taken. Of the candidates no more than there are taken names can fail. -/
def fresh (base : String) (s : NameSupply) : String × NameSupply :=
  let name := firstFree s.taken base s.taken.length 0
  (name, ⟨name :: s.taken⟩)

end NameSupply

end EcmaLower
