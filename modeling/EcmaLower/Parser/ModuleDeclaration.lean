import EcmaLower.Parser.Statement
import EcmaLower.Syntax.ModuleItem

/-!
# Imports and exports
-/

namespace EcmaLower

namespace Parse

/-- A string that names a module. -/
def moduleSource : Parse StrLit := do
  match ← kind with
  | .str value raw =>
    bump
    return ⟨value, some raw⟩
  | _ => unexpected "a string literal"

/-- The attributes of an import, which have no effect. -/
def attributes (g : Grammar) : Parse Unit := do
  if !(← lineBreakBefore) then
    let present ← if ← eatWord "assert" then pure true else eatWord "with"
    if present then
      if !(← isAt "\x7b") then failHere (.expected "\x7b" (← kind).describe)
      discard (objectLiteral g)

/-- `from`, the module and its attributes. -/
def fromClause (g : Grammar) : Parse StrLit := do
  expectWord "from"
  let source ← moduleSource
  attributes g
  discard eatSemi
  return source

/-- A name by which modules exchange a value. -/
def exportName : Parse ExportName := do
  match ← kind with
  | .str value raw =>
    let span ← curSpan
    bump
    return .str ⟨value, some raw⟩ span
  | .word .. | .ident _ => .word <$> identName
  | _ => unexpected "identifier or string"

/-- The name that an import binds. -/
def importedBinding : Parse Ident :=
  within (fun c => { c with inAsync := false, inGenerator := false }) (bindingIdent false)

/-- One name of a braced list of imports. -/
def importSpecifier : Parse ImportSpecifier := do
  match ← exportName with
  | .word i =>
    if ← eatWord "as" then return .named (← bindingIdent false) (some (.word i))
    return .named i none
  | .str v span =>
    if ← eatWord "as" then return .named (← bindingIdent false) (some (.str v span))
    fail span (.importBindingIsString (Units.toText v.value))

/-- A braced list, after its opening brace. -/
def bracedNames {α : Type} (name : Parse α) : Parse (List α) := do
  let names ← collect fun acc => do
    if ← isAt "\x7d" then return none
    if !acc.isEmpty then
      expect ","
      if ← isAt "\x7d" then return none
    some <$> name
  expect "\x7d"
  return names

/-- The default import at the start of an import, if there is one; says whether all that can follow
is a namespace. -/
def defaultImport : Parse (List ImportSpecifier × Bool) := do
  if !(← isName) then return ([], false)
  let i ← importedBinding
  if i.name == "defer" && (← isAt "*") then return ([], true)
  let i ← if i.name == "source" then do
      if !(← isAtWord "from") then
        if ← isName then importedBinding else pure i
      else if (← peek).kind.isWord "from" then importedBinding
      else pure i
    else pure i
  if !(← isAtWord "from") then expect ","
  return ([.default i], false)

/-- An import, at its keyword. -/
def importDecl (g : Grammar) : Parse ModuleItem := do
  bump
  if (← kind).isStr then
    let source ← moduleSource
    attributes g
    expectSemi
    return .importDecl [] source
  let (first, _) ← defaultImport
  let rest ← if ← eat "*" then do
      expectWord "as"
      let i ← importedBinding
      pure [.all i]
    else do
      if ← eat "\x7b" then bracedNames importSpecifier else pure []
  expectWord "from"
  let source ← moduleSource
  attributes g
  expectSemi
  return .importDecl (first ++ rest) source

/-- One name of a list of exports. -/
def exportSpecifier : Parse ExportSpecifier := do
  let name ← exportName
  let exported ← if ← eatWord "as" then some <$> exportName else pure none
  return .named name exported

/-- Records names that only another module can export. -/
def checkExport : ExportSpecifier → Parse Unit
  | .named (.word i) _ =>
    if alwaysReserved.contains i.name || i.name == "package" then
      note i.span (.exportExpectsFrom i.name)
    else pure ()
  | .named (.str _ span) _ => note span .exportBindingIsString
  | .all _ => pure ()

/-- A list of exports, or all exports of another module. -/
def exportList (g : Grammar) : Parse ModuleItem := do
  if ← isAt "*" then
    if !(← peek).kind.isWord "as" then
      bump
      return .exportAll (← fromClause g)
    bump
    bump
    let name ← exportName
    if !(← isAtWord "from") then failHere (.expected "from" (← kind).describe)
    return .exportNamed [.all name] (some (← fromClause g))
  expect "\x7b"
  let names ← bracedNames exportSpecifier
  if ← isAtWord "from" then return .exportNamed names (some (← fromClause g))
  names.forM checkExport
  discard eatSemi
  return .exportNamed names none

/-- A default export, after the word `default`. -/
def exportDefault (g : Grammar) : Parse ModuleItem := do
  let start ← curPos
  if ← isAtWord "class" then
    let (name, c) ← classTail g start false
    return .exportDefaultClass name c
  if ← isAtWord "function" then
    let (name, f) ← function g start false false false
    return .exportDefaultFunc name f
  if ← isAtWord "async" then
    let next ← peek
    if next.kind.isWord "function" && !next.lineBreak then
      bump
      let (name, f) ← function g start true false false
      return .exportDefaultFunc name f
  let e ← allowIn g.assign
  expectSemi
  return .exportDefaultExpr e

/-- An export, at its keyword. -/
def exportDecl (g : Grammar) : Parse ModuleItem := do
  bump
  let k ← kind
  if k.isEof then failHere .unexpectedEof
  if ← eatWord "default" then return ← exportDefault g
  match k with
  | .word "class" _ => .exportDecl <$> classDecl g
  | .word "function" _ => .exportDecl <$> funcDecl g (← curPos) false
  | _ =>
    if k.isWord "async" then
      let next ← peek
      if next.kind.isWord "function" && !next.lineBreak then
        let start ← curPos
        bump
        return .exportDecl (← funcDecl g start true)
    if ← isVarStart then return .exportDecl (← varDecl g false)
    exportList g

/-- A statement, import or export of a module. -/
def moduleItem (g : Grammar) : Parse ModuleItem := do
  if ← isAtWord "import" then
    let next := (← peek).kind
    if next.isPunct "(" || next.isPunct "." then return .stmt (← importStmt g)
    return ← importDecl g
  if ← isAtWord "export" then return ← exportDecl g
  .stmt <$> stmt g true

end Parse

end EcmaLower
