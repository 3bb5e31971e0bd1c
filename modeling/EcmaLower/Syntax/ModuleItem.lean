import EcmaLower.Syntax.Node

/-!
# Modules

The body of a module is a list of statements and declarations of imports and exports. These stand
at the top level only, so they are no part of `Node`.
-/

namespace EcmaLower

/-- A name by which modules exchange a value: a word or a string. -/
inductive ExportName
  | word (name : Ident)
  | str (value : StrLit) (span : Span)
deriving DecidableEq, Repr

/-- The text of a name. -/
def ExportName.text : ExportName → String
  | word i => i.name
  | str v _ => Units.toText v.value

/-- What one part of an import binds. -/
inductive ImportSpecifier
  /-- The default export. -/
  | default (name : Ident)
  /-- All exports, as one object. -/
  | all (name : Ident)
  /-- One export; its name is the bound one if it is not given. -/
  | named (name : Ident) (imported : Option ExportName)
deriving DecidableEq, Repr

/-- What one part of an export list exports. -/
inductive ExportSpecifier
  /-- A variable, or an export of another module, under its own name if no other is given. -/
  | named (name : ExportName) (exported : Option ExportName)
  /-- All exports of another module, as one object. -/
  | all (exported : ExportName)
deriving DecidableEq, Repr

/-- A statement, import or export in the body of a module. -/
inductive ModuleItem
  | stmt (s : Node)
  /-- An import; without specifiers it only runs the module. -/
  | importDecl (specifiers : List ImportSpecifier) (source : StrLit)
  /-- An exported declaration. -/
  | exportDecl (decl : Node)
  /-- A default export of a `func`. -/
  | exportDefaultFunc (name : Option Ident) (func : Node)
  /-- A default export of a `cls`. -/
  | exportDefaultClass (name : Option Ident) (cls : Node)
  /-- A default export of an expression. -/
  | exportDefaultExpr (e : Node)
  /-- A list of exports, of this module or of another one. -/
  | exportNamed (specifiers : List ExportSpecifier) (source : Option StrLit)
  /-- All exports of another module but the default one. -/
  | exportAll (source : StrLit)

end EcmaLower
