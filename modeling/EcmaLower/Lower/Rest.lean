import EcmaLower.Lower.Bottomup
import EcmaLower.Syntax.Build

/-!
# Rest parameters

A rest parameter becomes a variable that takes the arguments from its position on:
`function f(a, ...r) {}` becomes `function f(a) { var r = Array.prototype.slice.call(arguments, 1); }`.
-/

namespace EcmaLower.Rest

/-- `var pattern = Array.prototype.slice.call(arguments, index);` -/
def slice (pat : Node) (index : Nat) : Node :=
  Build.var [Build.declarator pat (some
    (Build.call (Build.path ["Array", "prototype", "slice", "call"])
      [Build.ident "arguments", Build.natLit index]))]

/-- The parameters before a rest parameter at the end of a list, and the pattern it binds. -/
def split? (params : List Node) : Option (List Node × Node) :=
  match params.getLast? with
  | some (.mk _ .restPat [pat]) => some (params.dropLast, pat)
  | _ => none

/-- Parameters and body with the rest parameter moved into the body. -/
def lower? : (params body : Node) → Option (Node × Node)
  | .mk pspan ptag ps, .mk bspan btag stmts => do
    let (before, pat) ← split? ps
    return (.mk pspan ptag before,
      .mk bspan btag (afterDirectives [slice pat before.length] stmts))

/-- What becomes of a function or a constructor with a rest parameter. -/
def rule : Node → Option Node
  | .mk span (.func a g) [params, body] => do
    let (params, body) ← lower? params body
    return .mk span (.func a g) [params, body]
  | .mk span .ctor [key, params, body] => do
    let (params, body) ← lower? params body
    return .mk span .ctor [key, params, body]
  | _ => none

end EcmaLower.Rest
