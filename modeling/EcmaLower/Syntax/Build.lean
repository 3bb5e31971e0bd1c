import EcmaLower.Syntax.Directive
import EcmaLower.Text.PlainName

/-!
# Generated syntax

The shapes of syntax that the compiler writes itself. No generated node has a place in the source.
-/

namespace EcmaLower

/-- `new` put into a body behind its leading directives. -/
def afterDirectives (new body : List Node) : List Node :=
  body.takeWhile isDirective ++ new ++ body.dropWhile isDirective

namespace Build

/-- A generated node. -/
def make (t : Tag) (ks : List Node) : Node := .mk .none t ks

/-! ## Expressions -/

/-- A reference to a name. -/
def ident (name : String) : Node := make (.ident name) []

/-- `this`. -/
def this : Node := make .this []

/-- A string literal of code units. -/
def unitsLit (value : Units) : Node := make (.str ⟨value, none⟩) []

/-- A string literal. -/
def strLit (value : String) : Node := unitsLit (Units.ofString value)

/-- The literal of an index. -/
def natLit (n : Nat) : Node := make (.num (.nat n)) []

/-- `true` or `false`. -/
def boolLit (b : Bool) : Node := make (.bool b) []

/-- `null`. -/
def nullLit : Node := make .null []

/-- `void 0`. -/
def undefined : Node := make (.unary .void) [natLit 0]

/-- `(e)`. -/
def paren (e : Node) : Node := make .paren [e]

/-- `a op b`. -/
def binary (op : BinaryOp) (a b : Node) : Node := make (.binary op) [a, b]

/-- `test ? a : b`. -/
def cond (test a b : Node) : Node := make .cond [test, a, b]

/-- Access with a key that is at hand. -/
def access (obj key : Node) : Node := make .member [obj, key]

/-- A key in brackets. -/
def computedKey (e : Node) : Node := make .keyComputed [e]

/-- `obj[e]`. -/
def index (obj e : Node) : Node := access obj (computedKey e)

/-- `obj.name`, or `obj["name"]` if the name cannot follow a dot. -/
def member (obj : Node) (name : String) : Node :=
  if isPlainName name then access obj (make (.keyName name) []) else index obj (strLit name)

/-- Access along a chain of names that starts with a variable. -/
def path : List String → Node
  | [] => ident ""
  | root :: names => names.foldl member (ident root)

/-- `callee(args)`. -/
def call (callee : Node) (args : List Node) : Node := make .call (callee :: args)

/-- `target = value`. -/
def assign (target value : Node) : Node := make (.assign .plain) [target, value]

/-- `key: value` in an object literal. -/
def keyValue (key value : Node) : Node :=
  .mk (key.span.through value.span) .keyValue [key, value]

/-- An object literal with the given names as keys. -/
def object (props : List (String × Node)) : Node :=
  make .object (props.map fun (k, v) => keyValue (make (.keyName k) []) v)

/-- An array literal. -/
def array (elements : List Node) : Node := make .array elements

/-! ## Functions -/

/-- `{ statements }`. -/
def block (stmts : List Node) : Node := make .block stmts

/-- A parameter list. -/
def params (ps : List Node) : Node := make .params ps

/-- Parameters and body of a function. -/
def func (ps stmts : List Node) : Node := make (.func false false) [params ps, block stmts]

/-- A nameless function; it stands where its parameters and body stand. -/
def funcExpr (f : Node) : Node := .mk f.span (.funcExpr none) [f]

/-- `function name(…) {…}`. -/
def funcDecl (name : String) (f : Node) : Node := make (.funcDecl ⟨name, .none⟩) [f]

/-! ## Statements -/

/-- `e;` -/
def exprStmt (e : Node) : Node := make .exprStmt [e]

/-- `return e;` -/
def returnStmt (e : Node) : Node := make .returnStmt [e]

/-- A name that is bound. -/
def binding (name : String) : Node := make (.binding name) []

/-- `pattern = value` in a declaration. -/
def declarator (pat : Node) (value : Option Node) : Node := make .declarator (pat :: value.toList)

/-- `var …;` -/
def var (decls : List Node) : Node := make (.varDecl .var) decls

/-- `if (test) a else b`. -/
def ifStmt (test a : Node) (b : Option Node) : Node := make .ifStmt (test :: a :: b.toList)

/-- `"use strict";` -/
def useStrict : Node := exprStmt (strLit "use strict")

/-- Copies every own enumerable property of `source` to `target`, except the one named `skip`:
`for (var key in source) if (key !== "skip" && Object.prototype.hasOwnProperty.call(source, key))
target[key] = source[key];` -/
def ownKeysCopy (source target : Node) (key : String) (skip : Option String) : Node :=
  let owns := call (path ["Object", "prototype", "hasOwnProperty", "call"]) [source, ident key]
  let test := match skip with
    | some s => binary .and (binary .strictNotEq (ident key) (strLit s)) owns
    | none => owns
  make .forIn [var [declarator (binding key) none], source,
    ifStmt test (exprStmt (assign (index target (ident key)) (index source (ident key)))) none]

end Build

end EcmaLower
