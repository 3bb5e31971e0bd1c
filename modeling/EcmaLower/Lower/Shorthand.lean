import EcmaLower.Lower.Bottomup
import EcmaLower.Lower.Owner
import EcmaLower.Syntax.Build

/-!
# Object shorthands

`{ x }` becomes `{ x: x }` and `{ m() {} }` becomes `{ m: function() {} }`. A method that uses
`super` stays, because a plain function has none.
-/

namespace EcmaLower.Shorthand

/-- What becomes of a shorthand property or method. -/
def rule : Node → Option Node
  | .mk span (.shorthand name) _ =>
    some (Build.keyValue (.mk span (.keyName name) []) (.mk span (.ident name) []))
  | .mk _ .objMethod [key, f] =>
    if usesSuper f.kids then none else some (Build.keyValue key (Build.funcExpr f))
  | _ => none

end EcmaLower.Shorthand
