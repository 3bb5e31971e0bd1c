/-!
# What is compiled
-/

namespace EcmaLower

/-- The conventions that compiled modules follow. -/
inductive ModuleType
  /-- A call of `define` with a name, the names of dependencies and a function. -/
  | amd
  /-- Dependencies come from `require` and exports go to `exports`. -/
  | cjs
  /-- All modules share one object. -/
  | globals
deriving DecidableEq, Repr

namespace ModuleType

/-- The name of a convention. -/
def name : ModuleType → String
  | amd => "amd"
  | cjs => "cjs"
  | globals => "globals"

/-- The conventions. -/
def all : List ModuleType := [amd, cjs, globals]

/-- The convention of a name. -/
def ofName? (n : String) : Option ModuleType := all.find? (·.name == n)

end ModuleType

/-- Says that a name is not that of a convention. -/
def unknownModuleType (n : String) : String :=
  "unknown module type `" ++ n ++ "` (expected one of: amd, cjs, globals)"

/-- A text to compile. -/
structure SourceUnit where
  text : String
  fileName : String
  /-- The directory that the name of the module is relative to. -/
  basePath : Option String := none
deriving DecidableEq, Repr

/-- The unit of a text from standard input. -/
def SourceUnit.stdin (text : String) : SourceUnit := { text, fileName := "stdin" }

/-- How to compile. -/
structure CompileOptions where
  /-- The name of the module, if it is not taken from the file. -/
  moduleName : Option String := none
  moduleType : ModuleType := .amd
  /-- The directory that names of modules are relative to. -/
  basePath : Option String := none
deriving DecidableEq, Repr

end EcmaLower
