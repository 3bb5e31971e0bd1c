import EcmaLower.Lower.Names
import EcmaLower.Lower.Super

/-!
# Classes

A class becomes a function that is called at once: it declares the constructor, links it to the
parent, defines the members one by one and returns the constructor.

```text
var Post = (function(_super) {
    "use strict";
    function Post(a) { _super.call(this, a); }
    if (_super !== null) { if (Object.setPrototypeOf) … else Post.__proto__ = _super; }
    Post.prototype = Object.create(_super === null ? null : _super.prototype, {…});
    Post.prototype.save = function() {};
    return Post;
})(Model);
```

A class with private names or static blocks stays as it is.
-/

namespace EcmaLower.Class

/-! ## Members -/

/-- Whether a member is keyed by a private name. -/
def hasPrivateKey (m : Node) : Bool :=
  match m.kids with
  | .mk _ (.keyPrivate _) _ :: _ => true
  | _ => false

/-- Whether a member can be written without a class. -/
def isPlainMember (m : Node) : Bool :=
  match m.tag with
  | .ctor | .emptyMember => true
  | .method .. | .field _ => !hasPrivateKey m
  | _ => false

/-- The members of a class. -/
def membersOf (cls : Node) : List Node := (cls.kids.head?.map Node.kids).getD []

/-- The expression behind `extends`. -/
def heritage? (cls : Node) : Option Node := cls.kids.tail.head?

/-- Whether all members of a class can be written without it. -/
def isLowerable (cls : Node) : Bool := (membersOf cls).all isPlainMember

/-- The members of a class by kind, each kind in source order. -/
structure Parts where
  ctor? : Option Node
  methods : List Node
  fields : List Node
  staticFields : List Node

/-- Sorts the members of a class by kind. -/
def Parts.ofMembers (ms : List Node) : Parts where
  ctor? := (ms.filter (·.tag == .ctor)).getLast?
  methods := ms.filter fun m => match m.tag with
    | .method .. => true
    | _ => false
  fields := ms.filter (·.tag == .field false)
  staticFields := ms.filter (·.tag == .field true)

/-- A key behind an object: after a dot, or in brackets. -/
def keyAsMember : Node → Node
  | .mk span (.keyStr s) _ => Build.computedKey (.mk span (.str s) [])
  | .mk span (.keyNum n) _ => Build.computedKey (.mk span (.num n) [])
  | .mk span (.keyBigInt raw) _ => Build.computedKey (.mk span (.bigInt raw) [])
  | key => key

/-- A key as an expression. -/
def keyAsExpr : Node → Node
  | .mk _ (.keyName n) _ => Build.strLit n
  | .mk span (.keyStr s) _ => .mk span (.str s) []
  | .mk span (.keyNum n) _ => .mk span (.num n) []
  | .mk span (.keyBigInt raw) _ => .mk span (.bigInt raw) []
  | .mk _ .keyComputed [e] => e
  | key => key

/-! ## The constructor -/

/-- Whether a statement is a call of the parent constructor. -/
def isSuperCall (s : Node) : Bool :=
  match s.tag, s.kids with
  | .exprStmt, [.mk _ (.superCall _) _] => true
  | _, _ => false

/-- The key of a field and its initial value. -/
def fieldParts (field : Node) : Node × Node :=
  match field.kids with
  | [key, value] => (key, value)
  | [key] => (key, Build.undefined)
  | _ => (Build.make .absent [], Build.undefined)

/-- `owner.key = value;` for a field. -/
def initField (owner : Node) (field : Node) : Node :=
  let (key, value) := fieldParts field
  Build.exprStmt (Build.assign (Build.access owner (keyAsMember key)) value)

/-- `new` inserted behind the first `n` elements. -/
def insertAt (n : Nat) (new l : List Node) : List Node := l.take n ++ new ++ l.drop n

/-- The number of statements that stay before the fields: up to the first call of the parent
constructor, else the directives. -/
def fieldsIndex (stmts : List Node) : Nat :=
  match stmts.findIdx? isSuperCall with
  | some i => i + 1
  | none => (stmts.takeWhile isDirective).length

/-- Parameters and statements of a constructor before its `super` is lowered. A derived class without
a constructor passes its arguments on. -/
def constructorParts (parent : Node) (derived : Bool) (parts : Parts) : Node × List Node :=
  let inits := parts.fields.map (initField Build.this)
  match parts.ctor? with
  | some (.mk _ _ [_, params, .mk _ _ stmts]) =>
    (params, insertAt (fieldsIndex stmts) inits stmts)
  | _ =>
    let parentCall := Build.exprStmt (Build.call (Build.member parent "apply")
      [Build.this, Build.ident "arguments"])
    (Build.params [], (if derived then [parentCall] else []) ++ inits)

/-- The constructor as a function. -/
def constructor (parent : Node) (derived : Bool) (parts : Parts) : Node :=
  let context : SuperContext := { parent, isStatic := false }
  let (params, stmts) := constructorParts parent derived parts
  Build.make (.func false false) [context.lower params, Build.block (stmts.map context.lower)]

/-! ## The other statements -/

/-- Links a class to its parent: the class to the parent for static members, the prototype to that of
the parent, or to `null`. -/
def inherit (name parentName : String) : List Node :=
  let cls := Build.ident name
  let parent := Build.ident parentName
  let setPrototype := Build.path ["Object", "setPrototypeOf"]
  let link := Build.ifStmt setPrototype
    (Build.exprStmt (Build.call setPrototype [cls, parent]))
    (some (Build.exprStmt (Build.assign (Build.member cls "__proto__") parent)))
  let proto := Build.cond (Build.binary .strictEq parent Build.nullLit) Build.nullLit
    (Build.member parent "prototype")
  let descriptors := Build.object [("constructor", Build.object
    [("value", cls), ("enumerable", Build.boolLit false), ("writable", Build.boolLit true),
      ("configurable", Build.boolLit true)])]
  [Build.ifStmt (Build.binary .strictNotEq parent Build.nullLit) (Build.block [link]) none,
    Build.exprStmt (Build.assign (Build.member cls "prototype")
      (Build.call (Build.path ["Object", "create"]) [proto, descriptors]))]

/-- Defines a method or an accessor. -/
def defineMethod (name : String) (parent method : Node) : Node :=
  match method with
  | .mk _ (.method kind isStatic) [key, .mk fspan ftag fkids] =>
    let context : SuperContext := { parent, isStatic }
    let f := Build.funcExpr (.mk fspan ftag (fkids.map context.lower))
    let target := if isStatic then Build.ident name else Build.member (Build.ident name) "prototype"
    let accessor := fun slot => Build.exprStmt (Build.call
      (Build.path ["Object", "defineProperty"])
      [target, keyAsExpr key, Build.object [(slot, f), ("configurable", Build.boolLit true)]])
    match kind with
    | .method => Build.exprStmt (Build.assign (Build.access target (keyAsMember key)) f)
    | .getter => accessor "get"
    | .setter => accessor "set"
  | other => other

/-- Initializes a static field. Its initializer has the class as its receiver. -/
def defineStatic (name : String) (parent field : Node) : Node :=
  let cls := Build.ident name
  let context : SuperContext := { parent, isStatic := true, receiver? := some cls }
  let (key, value) := fieldParts field
  Build.exprStmt (Build.assign (Build.access cls (keyAsMember key)) (context.lower value))

/-- The function that makes a class with the given members under a name. It takes the parent, if there
is one, and returns the class. -/
def maker (name : String) (parentName? : Option String) (ms : List Node) : Node :=
  let parts := Parts.ofMembers ms
  let parent := Build.ident (parentName?.getD "Object")
  Build.func (parentName?.map Build.binding).toList
    ([Build.useStrict, Build.funcDecl name (constructor parent parentName?.isSome parts)] ++
      (parentName?.map (inherit name)).getD [] ++
      parts.methods.map (defineMethod name parent) ++
      parts.staticFields.map (defineStatic name parent) ++
      [Build.returnStmt (Build.ident name)])

/-- The call that builds a class under a name. -/
def build (name : String) (parentName? : Option String) (cls : Node) : Node :=
  Build.call (Build.paren (Build.funcExpr (maker name parentName? (membersOf cls))))
    (heritage? cls).toList

/-! ## The traversal -/

/-- The state of the traversal. -/
structure Walk where
  names : NameSupply
  /-- The number of classes lowered so far. -/
  lowered : Nat := 0
deriving DecidableEq, Repr

/-- Draws a name. -/
def freshName (base : String) : StateM Walk String := fun w =>
  let (n, names) := w.names.fresh base
  (n, { w with names })

/-- The call that builds a class under a name; a derived class draws a name for its parent. -/
def lowerAs (name : String) (cls : Node) : StateM Walk Node := do
  modify fun w => { w with lowered := w.lowered + 1 }
  match heritage? cls with
  | some _ => return build name (some (← freshName "_super")) cls
  | none => return build name none cls

/-- What becomes of a class whose children are lowered. -/
def rule (n : Node) : StateM Walk Node := do
  match n with
  | .mk _ (.classDecl name) [cls] =>
    if isLowerable cls then
      let value ← lowerAs name.name cls
      return Build.var [Build.declarator (Build.binding name.name) (some value)]
    else return n
  | .mk _ (.classExpr name?) [cls] =>
    if isLowerable cls then
      match name? with
      | some name => lowerAs name.name cls
      | none => lowerAs (← freshName "_class") cls
    else return n
  | _ => return n

/-- A tree with its classes lowered, inner ones first. -/
def lower (n : Node) : StateM Walk Node :=
  n.fold fun span t ks => do rule (.mk span t (← ks.mapM (·.2)))

/-- A script with its classes lowered, and their number. -/
def lowerScript (s : Script) : Script × Nat :=
  let (body, w) := (s.body.mapM lower).run { names := .ofScript s }
  ({ s with body }, w.lowered)

end EcmaLower.Class
