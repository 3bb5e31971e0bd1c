import EcmaLower.Arith
import EcmaLower.Syntax.Script

/-!
# Rules applied from the leaves up

Most passes are a local rule: it looks at a node whose children are already lowered and either puts
another node in its place or leaves it alone. This module applies such a rule everywhere and counts
how often it fired.
-/

namespace EcmaLower

/-- A tree and the number of constructs that were lowered in it. -/
structure Counted where
  node : Node
  count : Nat

/-- Applies a rule to every node, children first, and counts how often it fired. -/
def Node.applyRule (rule : Node → Option Node) (n : Node) : Counted :=
  n.fold fun span t ks =>
    let self := Node.mk span t (ks.map (·.2.node))
    let below := total (·.2.count) ks
    match rule self with
    | some new => ⟨new, below + 1⟩
    | none => ⟨self, below⟩

/-- Applies a rule to every node of a script. -/
def Script.applyRule (rule : Node → Option Node) (s : Script) : Script × Nat :=
  let done := s.body.map (Node.applyRule rule)
  ({ s with body := done.map Counted.node }, total Counted.count done)

end EcmaLower
