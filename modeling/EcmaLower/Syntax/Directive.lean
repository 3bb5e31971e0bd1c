import EcmaLower.Syntax.Node

/-!
# Directives

A statement that is nothing but a string literal is a directive at the start of a body.
-/

namespace EcmaLower

/-- The string literal that a statement consists of. -/
def directive? (s : Node) : Option StrLit :=
  match s.tag, s.kids with
  | .exprStmt, [.mk _ (.str v) _] => some v
  | _, _ => none

/-- Whether a statement is a string literal. -/
def isDirective (s : Node) : Bool := (directive? s).isSome

/-- Whether a statement is the directive `"use strict"`, written without escapes. -/
def isUseStrict (s : Node) : Bool :=
  match directive? s with
  | some v => v.raw == some "\"use strict\"" || v.raw == some "'use strict'"
  | none => false

end EcmaLower
