import EcmaLower.Module.Convention
import EcmaLower.Syntax.ModuleItem

/-!
# Layout of a module

The body of a compiled module has three regions. The prologue binds imports and passes exports of
other modules on; the body holds the statements and the default export at its place; the epilogue
assigns the exported variables, once every declaration has run.
-/

namespace EcmaLower

/-- What goes into each region of a module. -/
structure Regions where
  prologue : List Node := []
  body : List Node := []
  epilogue : List Node := []

namespace Regions

/-- One after the other, region by region. -/
def append (a b : Regions) : Regions :=
  ⟨a.prologue ++ b.prologue, a.body ++ b.body, a.epilogue ++ b.epilogue⟩

instance : Append Regions := ⟨append⟩

/-- The regions one after the other. -/
def statements (r : Regions) : List Node := r.prologue ++ r.body ++ r.epilogue

end Regions

/-! ## Names -/

/-- The names that a pattern binds, in source order. -/
def patternNames (p : Node) : List String :=
  p.fold fun _ t ks =>
    match t, ks with
    | .binding n, _ => [n]
    | .arrayPat, ks | .objectPat, ks | .restPat, ks => ks.flatMap (·.2)
    | .assignPat, pat :: _ => pat.2
    | .patKeyValue, [_, value] => value.2
    | .patName n, _ => [n.name]
    | _, _ => []

/-- The names that a declaration binds, in source order. -/
def boundNames (decl : Node) : List String :=
  match decl.tag with
  | .classDecl n | .funcDecl n => [n.name]
  | .varDecl _ => decl.kids.flatMap fun d => (d.kids.head?.map patternNames).getD []
  | _ => []

/-! ## What an item contributes -/

/-- How a module is compiled: its convention and its name. -/
structure Registration where
  type : ModuleType
  moduleId : String

namespace Registration

/-- `exports.key = value;` -/
def assignExport (r : Registration) (key : String) (value : Node) : Node :=
  Build.exprStmt (Build.assign (Build.member r.type.exportsObject key) value)

/-- The variable that an import binds, and its value. -/
def importBinding (r : Registration) (d : Dependency) : ImportSpecifier → Ident × Node
  | .default n => (n, r.type.defaultImport d n.name)
  | .all n => (n, r.type.dependencyObject d)
  | .named n imported =>
    (n, Build.member (r.type.dependencyObject d) ((imported.map ExportName.text).getD n.name))

/-- An import: a variable for each specifier. Without any, only `require` has to run. -/
def importRegions (r : Registration) (d : Dependency) (specs : List ImportSpecifier) : Regions :=
  if specs.isEmpty then
    match r.type with
    | .cjs => { prologue := [Build.exprStmt (r.type.dependencyObject d)] }
    | _ => {}
  else
    { prologue := specs.map fun s =>
        let (n, value) := r.importBinding d s
        Build.var [Build.declarator (.mk n.span (.binding n.name) []) (some value)] }

/-- An export of a local variable under its name, or under another one. -/
def localExport (r : Registration) : ExportSpecifier → List Node
  | .named name exported =>
    let var := name.text
    let key := match exported.map ExportName.text with
      | some "default" => r.type.defaultExportKey r.moduleId (Build.ident var)
      | some other => other
      | none => var
    [r.assignExport key (Build.ident var)]
  | .all _ => []

/-- An export of another module, passed on. -/
def passedExport (r : Registration) (d : Dependency) : ExportSpecifier → Node
  | .named name exported =>
    r.assignExport ((exported.map ExportName.text).getD name.text)
      (Build.member (r.type.dependencyObject d) name.text)
  | .all exported => r.assignExport exported.text (r.type.dependencyObject d)

/-- A default export, assigned where it stands. -/
def defaultExport (r : Registration) (e : Node) : Node :=
  r.assignExport (r.type.defaultExportKey r.moduleId e) e

/-- A default export of a named declaration: the declaration, then its name. -/
def namedDefault (r : Registration) (name : Ident) (decl : Node) : Regions :=
  { body := [decl, r.defaultExport (Build.ident name.name)] }

/-- An exported declaration: assigned at the end under each name it binds. -/
def declRegions (r : Registration) (decl : Node) : Regions :=
  { body := [decl]
    epilogue := (boundNames decl).map fun n => r.assignExport n (Build.ident n) }

/-- All exports of another module but the default one. On a shared object they are there already. -/
def allRegions (r : Registration) (d : Dependency) : Regions :=
  match r.type with
  | .globals => {}
  | _ =>
    { prologue := [Build.ownKeysCopy (r.type.dependencyObject d) r.type.exportsObject "__key__"
        (some "default")] }

end Registration

/-! ## The whole module -/

/-- Dependencies and regions collected so far. -/
structure Layout where
  deps : List Dependency := []
  regions : Regions := {}

namespace Layout

/-- The dependency of a source, numbered at its first use. -/
def dependency (l : Layout) (source : String) : Dependency × Layout :=
  match l.deps.find? (·.source == source) with
  | some d => (d, l)
  | none =>
    let d : Dependency := ⟨l.deps.length + 1, source⟩
    (d, { l with deps := l.deps ++ [d] })

/-- Adds to the regions. -/
def add (l : Layout) (r : Regions) : Layout := { l with regions := l.regions ++ r }

/-- Adds what an item with a source contributes. -/
def addFrom (l : Layout) (source : StrLit) (contribute : Dependency → Regions) : Layout :=
  let (d, l) := l.dependency (Units.toText source.value)
  l.add (contribute d)

/-- Adds an item of a module. -/
def push (r : Registration) (l : Layout) : ModuleItem → Layout
  | .stmt s => l.add { body := [s] }
  | .importDecl specs source => l.addFrom source fun d => r.importRegions d specs
  | .exportDecl decl => l.add (r.declRegions decl)
  | .exportDefaultFunc (some n) f => l.add (r.namedDefault n (.mk f.span (.funcDecl n) [f]))
  | .exportDefaultFunc none f =>
    l.add { body := [r.defaultExport (.mk f.span (.funcExpr none) [f])] }
  | .exportDefaultClass (some n) c => l.add (r.namedDefault n (.mk c.span (.classDecl n) [c]))
  | .exportDefaultClass none c =>
    l.add { body := [r.defaultExport (.mk c.span (.classExpr none) [c])] }
  | .exportDefaultExpr e => l.add { body := [r.defaultExport e] }
  | .exportNamed specs none => l.add { epilogue := specs.flatMap r.localExport }
  | .exportNamed specs (some source) =>
    l.addFrom source fun d => { prologue := specs.map (r.passedExport d) }
  | .exportAll source => l.addFrom source r.allRegions

/-- The layout of a module. -/
def ofItems (r : Registration) (items : List ModuleItem) : Layout :=
  items.foldl (push r) {}

end Layout

end EcmaLower
