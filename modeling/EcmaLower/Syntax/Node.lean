import EcmaLower.Syntax.Operator
import EcmaLower.Syntax.Span
import EcmaLower.Text.Units

/-!
# Syntax trees

A syntax tree is a labelled tree: a node has a span, a *tag* that says what it is and carries the
data of its own (names, operators, literal texts), and the list of its children. Children stand in
the order in which every traversal of this library visits them. Since there is one constructor,
a traversal is a recursion with one case, and what differs from pass to pass is only what it does
with a tag.

The doc comment of each tag lists its children. Where a child is optional the list is shorter, or,
if a later child follows, an `absent` node holds its place.
-/

namespace EcmaLower

/-- A name with its place in the source; escapes in it are decoded. -/
structure Ident where
  name : String
  span : Span := .none
deriving DecidableEq, Repr

/-- A string literal: its value, and its source text if it has one. -/
structure StrLit where
  value : Units
  raw : Option String := none
deriving DecidableEq, Repr

/-- A number: as written in the source, a generated index, or a generated binary64 value given by
its bits. -/
inductive NumLit
  | written (raw : String)
  | nat (n : Nat)
  | double (bits : UInt64)
deriving DecidableEq, Repr

/-- One literal part of a template: its source text, and its value, missing if it holds an invalid
escape. -/
structure Quasi where
  raw : String
  cooked : Option Units
deriving DecidableEq, Repr

/-- Declaration keywords. -/
inductive VarKind
  | var | let | const
deriving DecidableEq, Repr

/-- The spelling of a declaration keyword. -/
def VarKind.text : VarKind → String
  | .var => "var"
  | .let => "let"
  | .const => "const"

/-- What a class method defines. -/
inductive MethodKind
  | method | getter | setter
deriving DecidableEq, Repr

/-- What a node is, with the data that is not a tree. -/
inductive Tag
  -- Expressions
  /-- `this`. -/
  | this
  /-- A reference to a name. -/
  | ident (name : String)
  | null
  | bool (b : Bool)
  | num (n : NumLit)
  /-- A big integer, by its source text. -/
  | bigInt (raw : String)
  | str (s : StrLit)
  | regex (pattern flags : String)
  /-- `#name` as the left operand of `in`. -/
  | privateName (name : String)
  /-- `new.target`. -/
  | newTarget
  /-- `import.meta`. -/
  | importMeta
  /-- Elements: expressions, `spread`, `hole`. -/
  | array
  /-- Properties. -/
  | object
  /-- A `func`. -/
  | funcExpr (name : Option Ident)
  /-- `params`, then a `block` or the expression body. -/
  | arrow (isAsync : Bool)
  /-- A `cls`. -/
  | classExpr (name : Option Ident)
  /-- The operand. -/
  | unary (op : UnaryOp)
  /-- The operand. -/
  | update (op : UpdateOp) (isPre : Bool)
  /-- Left and right operand. -/
  | binary (op : BinaryOp)
  /-- Target and value. -/
  | assign (op : AssignOp)
  /-- Test, consequent, alternative. -/
  | cond
  /-- The expressions. -/
  | seq
  /-- Object and key. -/
  | member
  /-- Key of `super`; the span is that of the word `super`. -/
  | superMember (word : Span)
  /-- Callee, then arguments. -/
  | call
  /-- Arguments of `super(...)`. -/
  | superCall (word : Span)
  /-- Arguments of `import(...)`, or of `import.phase(...)`. -/
  | importCall (word : Span) (phase : Option String)
  /-- Callee, then arguments, which may be left out with their parentheses. -/
  | new (hasArgs : Bool)
  /-- Object and key in an optional chain; `optional` if `?.` stands between them. -/
  | optMember (optional : Bool)
  /-- Callee and arguments in an optional chain. -/
  | optCall (optional : Bool)
  /-- Substitutions. -/
  | template (quasis : List Quasi)
  /-- The tag function, then substitutions; the span is that of the template. -/
  | tagged (quoted : Span) (quasis : List Quasi)
  /-- The operand, if there is one. -/
  | yield (delegate : Bool)
  /-- The operand. -/
  | await
  /-- The expression in parentheses. -/
  | paren
  /-- Stands in for an expression that could not be read. -/
  | invalid
  /-- The expression that is spread: in arguments, arrays and object literals. -/
  | spread
  /-- A missing array element. -/
  | hole
  -- Functions and classes
  /-- `params` and a `block`. -/
  | func (isAsync isGenerator : Bool)
  /-- Patterns. -/
  | params
  /-- `members`, then the heritage if there is one. -/
  | cls
  /-- Class members. -/
  | members
  /-- Key, `params`, `block`. -/
  | ctor
  /-- Key and `func`. -/
  | method (kind : MethodKind) (isStatic : Bool)
  /-- Key, then the initializer if there is one. -/
  | field (isStatic : Bool)
  /-- A `block`. -/
  | staticBlock
  /-- A lone `;` between members. -/
  | emptyMember
  -- Keys of properties and members
  | keyName (name : String)
  | keyStr (s : StrLit)
  | keyNum (n : NumLit)
  | keyBigInt (raw : String)
  /-- The expression in brackets. -/
  | keyComputed
  | keyPrivate (name : String)
  -- Properties of object literals
  /-- A property whose value is the variable of its name. -/
  | shorthand (name : String)
  /-- Key and value. -/
  | keyValue
  /-- The default: `name = value`, allowed only where the literal is a pattern. -/
  | initShorthand (name : Ident)
  /-- Key and `func`. -/
  | objMethod
  /-- Key and `block`. -/
  | getter
  /-- Key, parameter and `block`. -/
  | setter
  -- Patterns
  /-- A name that is bound or assigned. -/
  | binding (name : String)
  /-- Patterns and `hole`s. -/
  | arrayPat
  /-- Pattern properties and `restPat`. -/
  | objectPat
  /-- The pattern that takes the rest. -/
  | restPat
  /-- Pattern and default. -/
  | assignPat
  /-- Key and pattern. -/
  | patKeyValue
  /-- The default, if there is one. -/
  | patName (name : Ident)
  -- Statements
  /-- The expression. -/
  | exprStmt
  /-- Statements. -/
  | block
  | empty
  | debugger
  /-- Object and body. -/
  | withStmt
  /-- The value, if there is one. -/
  | returnStmt
  /-- The labelled statement. -/
  | labeled (label : Ident)
  | breakStmt (label : Option Ident)
  | continueStmt (label : Option Ident)
  /-- Test, consequent, then the alternative if there is one. -/
  | ifStmt
  /-- The value, then the clauses. -/
  | switchStmt
  /-- The test, then statements. -/
  | caseClause
  /-- Statements. -/
  | defaultClause
  /-- The value. -/
  | throwStmt
  /-- `block`, then `catchClause` or `absent`, then the final `block` or `absent`. -/
  | tryStmt
  /-- Parameter or `absent`, then `block`. -/
  | catchClause
  /-- Test and body. -/
  | whileStmt
  /-- Test and body. -/
  | doWhile
  /-- Initializer, test and update, each or `absent`, then the body. -/
  | forStmt
  /-- Head, object and body. -/
  | forIn
  /-- Head, iterable and body. -/
  | forOf (isAwait : Bool)
  /-- Declarators. -/
  | varDecl (kind : VarKind)
  /-- Pattern, then the initializer if there is one. -/
  | declarator
  /-- A `func`. -/
  | funcDecl (name : Ident)
  /-- A `cls`. -/
  | classDecl (name : Ident)
  /-- The place of an optional child that is not there. -/
  | absent
deriving DecidableEq, Repr

/-- A syntax tree. -/
inductive Node
  | mk (span : Span) (tag : Tag) (kids : List Node)

namespace Node

/-- The source range of a node. -/
def span : Node → Span
  | mk s _ _ => s

/-- What a node is. -/
def tag : Node → Tag
  | mk _ t _ => t

/-- The children of a node. -/
def kids : Node → List Node
  | mk _ _ ks => ks

instance : Inhabited Node := ⟨mk .none .absent []⟩

/-! ## Recursion -/

mutual

/-- Recursion over a tree. The step sees a node's span, its tag, and each child beside the result
of that child. -/
def fold {α : Type} (step : Span → Tag → List (Node × α) → α) : Node → α
  | mk s t ks => step s t (foldList step ks)

/-- `Node.fold` on each node of a list, beside the node. -/
def foldList {α : Type} (step : Span → Tag → List (Node × α) → α) : List Node → List (Node × α)
  | [] => []
  | k :: ks => (k, fold step k) :: foldList step ks

end

/-! ## Positions -/

end Node

/-- A name without its position. -/
def Ident.erase (i : Ident) : Ident :=
  { i with span := .none }

/-- A tag without the positions in it. -/
def Tag.erase : Tag → Tag
  | funcExpr n => funcExpr (n.map Ident.erase)
  | classExpr n => classExpr (n.map Ident.erase)
  | superMember _ => superMember .none
  | superCall _ => superCall .none
  | importCall _ p => importCall .none p
  | tagged _ qs => tagged .none qs
  | initShorthand n => initShorthand n.erase
  | patName n => patName n.erase
  | labeled n => labeled n.erase
  | breakStmt n => breakStmt (n.map Ident.erase)
  | continueStmt n => continueStmt (n.map Ident.erase)
  | funcDecl n => funcDecl n.erase
  | classDecl n => classDecl n.erase
  | t => t

/-- A tree without its source positions. -/
def Node.erase (n : Node) : Node :=
  n.fold fun _ t ks => .mk .none t.erase (ks.map (·.2))

end EcmaLower
