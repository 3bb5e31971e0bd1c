import EcmaLower.Syntax.Script

/-!
# Residue

Which of the families of syntax that the passes lower are still in a script.
-/

namespace EcmaLower

/-- The families of syntax that are lowered. -/
inductive Family
  | arrowFunction
  | classDef
  | restParameter
  | shorthandMethod
  | shorthandProperty
  | taggedTemplate
  | templateLiteral
deriving DecidableEq, Repr

namespace Family

/-- The name of a family. -/
def name : Family → String
  | arrowFunction => "arrow function"
  | classDef => "class"
  | restParameter => "rest parameter"
  | shorthandMethod => "shorthand method"
  | shorthandProperty => "shorthand property"
  | taggedTemplate => "tagged template"
  | templateLiteral => "template literal"

/-- The families, in the order of their names. -/
def all : List Family :=
  [arrowFunction, classDef, restParameter, shorthandMethod, shorthandProperty, taggedTemplate,
    templateLiteral]

end Family

/-- Whether a list of parameters has a rest parameter. -/
def hasRest (params : Node) : Bool := params.kids.any (·.tag == .restPat)

/-- Whether a node is a construct of a family. The rest parameter of an arrow does not count. -/
def Family.isRoot (f : Family) (n : Node) : Bool :=
  match f, n with
  | .arrowFunction, .mk _ (.arrow _) _ => true
  | .classDef, .mk _ .cls _ => true
  | .restParameter, .mk _ (.func ..) (params :: _) => hasRest params
  | .restParameter, .mk _ .ctor (_ :: params :: _) => hasRest params
  | .shorthandMethod, .mk _ .objMethod _ => true
  | .shorthandProperty, .mk _ (.shorthand _) _ => true
  | .taggedTemplate, .mk _ (.tagged ..) _ => true
  | .templateLiteral, .mk _ (.template _) _ => true
  | _, _ => false

/-- Whether a construct of a family occurs in a tree. -/
def Node.has (f : Family) (n : Node) : Bool :=
  n.fold fun span t ks => f.isRoot (.mk span t (ks.map (·.1))) || ks.any (·.2)

/-- The families that occur in a script, in the order of their names. -/
def Script.residue (s : Script) : List Family :=
  Family.all.filter fun f => s.body.any (·.has f)

end EcmaLower
