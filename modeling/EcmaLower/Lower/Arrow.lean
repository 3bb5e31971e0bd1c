import EcmaLower.Lower.Owner
import EcmaLower.Syntax.Build

/-!
# Arrow functions

An arrow becomes a function expression. Its `this` and `arguments` are those of the function around
it, so inside an arrow they are read from variables that this function declares at the start of its
body: `function f() { return () => this.x; }` becomes
`function f() { var _this = this; return function() { return _this.x; }; }`.

Variables of the body are not visible in the parameter list, so an arrow there that uses `this` or
`arguments` stays an arrow. So does an arrow that uses `super`. Field initializers and static blocks
of classes have a `this` of their own and are left as they are.
-/

namespace EcmaLower.Arrow

/-- What binds `this`: the script or a function that is not an arrow. -/
structure Scope where
  /-- Whether it binds `arguments` as well. -/
  hasArguments : Bool
  /-- The variable that holds its `this`, once an arrow needs it. -/
  thisName : Option String := none
  /-- The variable that holds its `arguments`, once an arrow needs it. -/
  argumentsName : Option String := none
deriving DecidableEq, Repr

/-- The state of the traversal. -/
structure Walk where
  names : NameSupply
  /-- The scopes around the current node, innermost first. -/
  scopes : List Scope := []
  /-- The number of arrows between the innermost scope and the current node. -/
  depth : Nat := 0
  /-- Whether the current node is in the parameter list of the innermost scope. -/
  inParams : Bool := false
  /-- The number of arrows lowered so far. -/
  lowered : Nat := 0
deriving DecidableEq, Repr

/-! ## Scopes -/

/-- What of the traversal state belongs to a scope and comes back when an inner one is left. -/
structure Outer where
  depth : Nat
  inParams : Bool

/-- Enters a scope. -/
def enter (hasArguments : Bool) : StateM Walk Outer := fun w =>
  (⟨w.depth, w.inParams⟩,
    { w with scopes := { hasArguments } :: w.scopes, depth := 0, inParams := false })

/-- The declarations that a scope needs: one statement, or none. -/
def Scope.captures (s : Scope) : List Node :=
  let decls :=
    (s.thisName.map fun n => Build.declarator (Build.binding n) (some Build.this)).toList ++
    (s.argumentsName.map fun n =>
      Build.declarator (Build.binding n) (some (Build.ident "arguments"))).toList
  if decls.isEmpty then [] else [Build.var decls]

/-- Leaves the innermost scope and gives the declarations it needs. -/
def leave (outer : Outer) : StateM Walk (List Node) := fun w =>
  let back := { w with scopes := w.scopes.tail, depth := outer.depth, inParams := outer.inParams }
  match w.scopes with
  | [] => ([], back)
  | s :: _ => (s.captures, back)

/-- Marks whether the current node is in a parameter list. -/
def setInParams (b : Bool) : StateM Walk Unit := modify fun w => { w with inParams := b }

/-- Whether `this` and `arguments` at the current node are read from variables. -/
def Walk.redirects (w : Walk) : Bool := w.depth > 0 && !w.inParams

/-- The expression for the `this` of the innermost scope. -/
def lexicalThis : StateM Walk Node := fun w =>
  match w.scopes with
  | [] => (Build.this, w)
  | s :: outer =>
    match s.thisName with
    | some n => (Build.ident n, w)
    | none =>
      let (n, names) := w.names.fresh "_this"
      (Build.ident n, { w with names, scopes := { s with thisName := some n } :: outer })

/-- The expression for the `arguments` of the innermost scope; the script has none. -/
def lexicalArguments : StateM Walk (Option Node) := fun w =>
  match w.scopes with
  | [] => (none, w)
  | s :: outer =>
    if s.hasArguments then
      match s.argumentsName with
      | some n => (some (Build.ident n), w)
      | none =>
        let (n, names) := w.names.fresh "_arguments"
        (some (Build.ident n),
          { w with names, scopes := { s with argumentsName := some n } :: outer })
    else (none, w)

/-! ## Nodes -/

/-- A block with statements put behind its directives. -/
def declareIn (decls : List Node) : Node → Node
  | .mk span t stmts => .mk span t (afterDirectives decls stmts)

/-- The function that an arrow becomes: it stands where the arrow stood. -/
def toFunction (span : Span) (isAsync : Bool) (params body : Node) : Node :=
  let body := match body.tag with
    | .block => body
    | _ => Build.block [Build.returnStmt body]
  Build.funcExpr (.mk span (.func isAsync false) [Build.params params.kids, body])

/-- Whether a statement that starts with this expression would be read as a declaration or a block. -/
def startsLikeDeclaration (e : Node) : Bool :=
  e.fold fun _ t ks =>
    match t, ks with
    | .funcExpr _, _ | .classExpr _, _ | .object, _ => true
    | .seq, first :: _ | .binary _, first :: _ | .cond, first :: _ | .member, first :: _
    | .call, first :: _ | .tagged .., first :: _ => first.2
    | _, _ => false

/-- An expression as the start of a statement. -/
def asStatement (e : Node) : Node :=
  if startsLikeDeclaration e then Build.paren e else e

/-- A body with a parameter list, as a scope of its own. -/
def inScope (params body : StateM Walk Node) : StateM Walk (Node × Node) := do
  let outer ← enter true
  setInParams true
  let params ← params
  setInParams false
  let body ← body
  let decls ← leave outer
  return (params, declareIn decls body)

/-- A body without parameters, as a scope of its own. -/
def inBareScope (body : StateM Walk Node) : StateM Walk Node := do
  let outer ← enter true
  let body ← body
  let decls ← leave outer
  return declareIn decls body

/-- One node of the traversal. -/
def step (span : Span) (t : Tag) (ks : List (Node × StateM Walk Node)) : StateM Walk Node := do
  let given := ks.map (·.1)
  match t, ks with
  | .func .., [params, body] =>
    let (params, body) ← inScope params.2 body.2
    return .mk span t [params, body]
  | .ctor, [key, params, body] =>
    let key ← key.2
    let (params, body) ← inScope params.2 body.2
    return .mk span t [key, params, body]
  | .getter, [key, body] =>
    let key ← key.2
    let body ← inBareScope body.2
    return .mk span t [key, body]
  | .setter, [key, param, body] =>
    let key ← key.2
    let (param, body) ← inScope param.2 body.2
    return .mk span t [key, param, body]
  | .field _, _ | .staticBlock, _ => return .mk span t given
  | .arrow isAsync, [params, body] =>
    let keep := usesSuper given || ((← get).inParams && usesContext given)
    modify fun w => { w with depth := w.depth + 1 }
    let params ← params.2
    let body ← body.2
    modify fun w => { w with depth := w.depth - 1 }
    if keep then return .mk span t [params, body]
    modify fun w => { w with lowered := w.lowered + 1 }
    return toFunction span isAsync params body
  | .shorthand "arguments", _ =>
    if (← get).redirects then
      match ← lexicalArguments with
      | some value => return Build.keyValue (Build.make (.keyName "arguments") []) value
      | none => return .mk span t given
    else return .mk span t given
  | .this, _ =>
    if (← get).redirects then lexicalThis else return .mk span t given
  | .ident "arguments", _ =>
    if (← get).redirects then
      return (← lexicalArguments).getD (.mk span t given)
    else return .mk span t given
  | .exprStmt, [e] => return .mk span t [asStatement (← e.2)]
  | _, _ => return .mk span t (← ks.mapM (·.2))

/-- A tree with its arrows lowered. -/
def lower (n : Node) : StateM Walk Node := n.fold step

/-- The statements of a script with their arrows lowered. -/
def lowerBody (body : List Node) : StateM Walk (List Node) := do
  let outer ← enter false
  let body ← body.mapM lower
  let decls ← leave outer
  return afterDirectives decls body

/-- A script with its arrows lowered, and their number. -/
def lowerScript (s : Script) : Script × Nat :=
  let (body, w) := (lowerBody s.body).run { names := .ofScript s }
  ({ s with body }, w.lowered)

end EcmaLower.Arrow
