import EcmaLower.Syntax.Node

/-!
# Categories of nodes
-/

namespace EcmaLower

/-- What a node is in the grammar. -/
inductive Category
  | expression | pattern | statement
  /-- A function or class without its name, a property, a key, a member, a clause. -/
  | part
deriving DecidableEq, Repr

/-- The category of a node. -/
def Tag.category : Tag → Category
  | this | ident _ | null | bool _ | num _ | bigInt _ | str _ | regex .. | privateName _
  | newTarget | importMeta | array | object | funcExpr _ | arrow _ | classExpr _ | unary _
  | update .. | binary _ | assign _ | cond | seq | member | superMember _ | call | superCall _
  | importCall .. | new _ | optMember _ | optCall _ | template _ | tagged .. | yield _ | await
  | paren | invalid => .expression
  | binding _ | arrayPat | objectPat | restPat | assignPat => .pattern
  | exprStmt | block | empty | debugger | withStmt | returnStmt | labeled _ | breakStmt _
  | continueStmt _ | ifStmt | switchStmt | throwStmt | tryStmt | whileStmt | doWhile | forStmt
  | forIn | forOf _ | varDecl _ | funcDecl _ | classDecl _ => .statement
  | spread | hole | func .. | params | cls | members | ctor | method .. | field _ | staticBlock
  | emptyMember | keyName _ | keyStr _ | keyNum _ | keyBigInt _ | keyComputed | keyPrivate _
  | shorthand _ | keyValue | initShorthand _ | objMethod | getter | setter | patKeyValue
  | patName _ | caseClause | defaultClause | catchClause | declarator | absent => .part

end EcmaLower
