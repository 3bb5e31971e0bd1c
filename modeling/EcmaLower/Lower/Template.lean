import EcmaLower.Lower.Bottomup
import EcmaLower.Syntax.Build

/-!
# Template literals

A template becomes a call of `concat` on its first piece of text, and a tagged template becomes a
call of its tag with the array of its texts:
`` `a${x}b` `` is `"a".concat(x, "b")`, and `` t`a${x}b` `` is
`t(Object.freeze(Object.defineProperty(["a", "b"], "raw", {value: Object.freeze(["a", "b"])})), x)`.
-/

namespace EcmaLower.Template

/-- The literal of a piece of text; none if it holds an invalid escape. -/
def cooked (q : Quasi) : Option Node := q.cooked.map Build.unitsLit

/-- An expression as one argument of a call: the comma operator needs parentheses. -/
def argument (e : Node) : Node :=
  match e.tag with
  | .seq => Build.paren e
  | _ => e

/-- The arguments of `concat` for a substitution and the text behind it. -/
def pieces (e : Node) (q : Quasi) : List Node :=
  argument e :: if q.raw.isEmpty then [] else (cooked q).toList

/-- The call for an untagged template; without substitutions it is the text alone. -/
def concat (quasis : List Quasi) (exprs : List Node) : Node :=
  let head := (quasis.head?.bind cooked).getD (Build.strLit "")
  if exprs.isEmpty then head
  else Build.call (Build.member head "concat") (List.zipWith pieces exprs quasis.tail).flatten

/-- The array of texts that a tag is called with. -/
def strings (quasis : List Quasi) : Node :=
  let freeze := fun e => Build.call (Build.path ["Object", "freeze"]) [e]
  freeze (Build.call (Build.path ["Object", "defineProperty"])
    [Build.array (quasis.map fun q => (cooked q).getD Build.undefined),
      Build.strLit "raw",
      Build.object [("value", freeze (Build.array (quasis.map fun q => Build.strLit q.raw)))]])

/-- The call for a tagged template. -/
def tagCall (tag : Node) (quasis : List Quasi) (exprs : List Node) : Node :=
  Build.call tag (strings quasis :: exprs)

/-- What becomes of a template. -/
def rule : Node → Option Node
  | .mk _ (.template quasis) exprs => some (concat quasis exprs)
  | .mk _ (.tagged _ quasis) (tag :: exprs) => some (tagCall tag quasis exprs)
  | _ => none

end EcmaLower.Template
