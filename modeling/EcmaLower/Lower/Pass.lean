import EcmaLower.Lower.Arrow
import EcmaLower.Lower.Class
import EcmaLower.Lower.Residue
import EcmaLower.Lower.Rest
import EcmaLower.Lower.Shorthand
import EcmaLower.Lower.Template

/-!
# Passes

Each pass lowers one family of syntax and leaves the others alone. They run in a fixed order:
classes come before arrows, so that `super` in an arrow is lowered while the arrow's `this` is still
that of the member, and then captured with it.
-/

namespace EcmaLower

/-- The passes. -/
inductive Pass
  | classes
  | arrowFunctions
  | objectShorthand
  | restParameters
  | templateLiterals
deriving DecidableEq, Repr

namespace Pass

/-- The name of a pass. -/
def name : Pass → String
  | classes => "classes"
  | arrowFunctions => "arrow-functions"
  | objectShorthand => "object-shorthand"
  | restParameters => "rest-parameters"
  | templateLiterals => "template-literals"

/-- The order in which a unit is compiled. -/
def canonical : List Pass :=
  [classes, arrowFunctions, objectShorthand, restParameters, templateLiterals]

/-- The pass of a name. -/
def ofName? (n : String) : Option Pass := canonical.find? (·.name == n)

/-- A script after a pass, and the number of constructs that were lowered. -/
def run : Pass → Script → Script × Nat
  | classes, s => Class.lowerScript s
  | arrowFunctions, s => Arrow.lowerScript s
  | objectShorthand, s => s.applyRule Shorthand.rule
  | restParameters, s => s.applyRule Rest.rule
  | templateLiterals, s => s.applyRule Template.rule

end Pass

/-- A script after a list of passes, and the number of constructs that were lowered. -/
def runPasses : List Pass → Script → Script × Nat
  | [], s => (s, 0)
  | p :: ps, s =>
    let (s, n) := p.run s
    let (s, m) := runPasses ps s
    (s, n + m)

end EcmaLower
