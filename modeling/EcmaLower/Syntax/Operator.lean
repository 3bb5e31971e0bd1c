/-!
# Operators

The operators of expressions, with their spelling and, for binary operators, their precedence.
-/

namespace EcmaLower

/-- Prefix operators other than the increments. -/
inductive UnaryOp
  | minus | plus | bang | tilde | typeOf | void | delete
deriving DecidableEq, Repr

/-- The spelling of a prefix operator. -/
def UnaryOp.text : UnaryOp → String
  | .minus => "-"
  | .plus => "+"
  | .bang => "!"
  | .tilde => "~"
  | .typeOf => "typeof"
  | .void => "void"
  | .delete => "delete"

/-- Increment and decrement. -/
inductive UpdateOp
  | increment | decrement
deriving DecidableEq, Repr

/-- The spelling of an increment operator. -/
def UpdateOp.text : UpdateOp → String
  | .increment => "++"
  | .decrement => "--"

/-- Operators between two operands, logical ones included. -/
inductive BinaryOp
  | eq | notEq | strictEq | strictNotEq
  | lt | le | gt | ge
  | shl | shr | ushr
  | add | sub | mul | div | mod | pow
  | bitOr | bitXor | bitAnd
  | or | and | nullish
  | isIn | instanceOf
deriving DecidableEq, Repr

namespace BinaryOp

/-- The spelling of a binary operator. -/
def text : BinaryOp → String
  | eq => "=="
  | notEq => "!="
  | strictEq => "==="
  | strictNotEq => "!=="
  | lt => "<"
  | le => "<="
  | gt => ">"
  | ge => ">="
  | shl => "<<"
  | shr => ">>"
  | ushr => ">>>"
  | add => "+"
  | sub => "-"
  | mul => "*"
  | div => "/"
  | mod => "%"
  | pow => "**"
  | bitOr => "|"
  | bitXor => "^"
  | bitAnd => "&"
  | or => "||"
  | and => "&&"
  | nullish => "??"
  | isIn => "in"
  | instanceOf => "instanceof"

/-- How tightly an operator binds: a higher number binds tighter. -/
def precedence : BinaryOp → Nat
  | or | nullish => 1
  | and => 2
  | bitOr => 3
  | bitXor => 4
  | bitAnd => 5
  | eq | notEq | strictEq | strictNotEq => 6
  | lt | le | gt | ge | isIn | instanceOf => 7
  | shl | shr | ushr => 8
  | add | sub => 9
  | mul | div | mod => 10
  | pow => 11

end BinaryOp

/-- Assignment, plain or compound. -/
inductive AssignOp
  | plain
  | compound (op : BinaryOp)
deriving DecidableEq, Repr

namespace AssignOp

/-- The spelling of an assignment operator. -/
def text : AssignOp → String
  | plain => "="
  | compound op => op.text ++ "="

/-- The operator that a compound assignment applies before it stores. -/
def binary : AssignOp → Option BinaryOp
  | plain => none
  | compound op => some op

/-- Logical assignments store only if their left side does not decide the result. -/
def shortCircuits : AssignOp → Bool
  | compound .or | compound .and | compound .nullish => true
  | _ => false

end AssignOp

end EcmaLower
