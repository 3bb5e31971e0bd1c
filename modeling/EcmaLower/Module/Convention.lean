import EcmaLower.Module.Unit
import EcmaLower.Syntax.Build
import EcmaLower.Text.Quoted
import EcmaLower.Text.Space

/-!
# Module conventions

How a module of each convention reaches its dependencies and its exports, and the text around its
body.
-/

namespace EcmaLower

/-- A module that another one refers to; dependencies are numbered from 1 by first use. -/
structure Dependency where
  index : Nat
  source : String
deriving DecidableEq, Repr

/-- The variable that holds a dependency. -/
def Dependency.param (d : Dependency) : String := "__dependency" ++ toString d.index ++ "__"

/-- The variable that holds the exports. -/
def exportsParam : String := "__exports__"

namespace ModuleType

/-- The object that the exports of a module are put on. -/
def exportsObject : ModuleType → Node
  | amd | globals => Build.ident exportsParam
  | cjs => Build.ident "exports"

/-- The object that holds the exports of a dependency. -/
def dependencyObject (t : ModuleType) (d : Dependency) : Node :=
  match t with
  | amd => Build.ident d.param
  | cjs => Build.call (Build.ident "require") [Build.strLit d.source]
  | globals => Build.ident exportsParam

/-- The default export of a dependency. On a shared object it has the name it is imported under. -/
def defaultImport (t : ModuleType) (d : Dependency) (bound : String) : Node :=
  match t with
  | globals => Build.member (Build.ident exportsParam) bound
  | amd | cjs => Build.member (t.dependencyObject d) "default"

/-- The key of the default export. On a shared object it is the variable that is exported, or the
name of the module. -/
def defaultExportKey (t : ModuleType) (moduleId : String) (e : Node) : String :=
  match t, e.tag with
  | globals, .ident name => name
  | globals, _ => moduleId
  | amd, _ | cjs, _ => "default"

/-- The text of a module around its body. -/
def wrap (t : ModuleType) (moduleId : String) (deps : List Dependency) (body : String) : String :=
  let body := trimEnd body
  match t with
  | amd =>
    let sources := joinWith "," (deps.map (fun d => quoted d.source) ++ [quoted "exports"])
    let params := joinWith ", " (deps.map Dependency.param ++ [exportsParam])
    "define(" ++ quoted moduleId ++ ",\n  [" ++ sources ++ "],\n  function(" ++ params ++
      ") \x7b\n    \"use strict\";\n" ++ body ++ "\n  \x7d);\n"
  | cjs => "(function() \x7b\n  \"use strict\";\n" ++ body ++ "\n\x7d)();\n"
  | globals =>
    "(function(" ++ exportsParam ++ ") \x7b\n  \"use strict\";\n" ++ body ++ "\n\x7d)(this);\n"

end ModuleType

end EcmaLower
