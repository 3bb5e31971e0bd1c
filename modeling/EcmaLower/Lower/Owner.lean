import EcmaLower.Lower.Names

/-!
# Code that belongs to the function around it

A function has `this`, `arguments` and `super` of its own, and so have accessors; an arrow shares
those of the function around it. The scans of this module look for uses of them in the code that
shares them with the root of a tree: they go into arrows and not into functions, accessors and
classes. Of a class, only the heritage belongs to the surrounding code.
-/

namespace EcmaLower

/-- Whether a tag with property `p` occurs in the code that shares the context of the root. -/
def Node.ownUse (p : Tag → Bool) (n : Node) : Bool :=
  n.fold fun _ t ks =>
    match t, ks with
    | .func .., _ | .getter, _ | .setter, _ => false
    | .cls, _ :: heritage => heritage.any (·.2)
    | _, _ => p t || ks.any (·.2)

/-- Whether a node is a use of `super`. -/
def Tag.isSuper : Tag → Bool
  | superMember _ | superCall _ => true
  | _ => false

/-- Whether a node is `this` or mentions `arguments`. -/
def Tag.isContext (t : Tag) : Bool :=
  t == .this || t.names.contains "arguments"

/-- Whether a function or an arrow, given by its parts, uses the `super` it is given. -/
def usesSuper (parts : List Node) : Bool :=
  parts.any (·.ownUse Tag.isSuper)

/-- Whether an arrow, given by its parts, uses `this` or `arguments` of the code around it. -/
def usesContext (parts : List Node) : Bool :=
  parts.any (·.ownUse Tag.isContext)

end EcmaLower
