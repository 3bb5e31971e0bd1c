import EcmaLower.Files.Path
import EcmaLower.Module.Unit

/-!
# Names of modules

A module is registered under the name that the options give, else under its path relative to a base,
else under the name of its file, in each case without the extension `.js`.
-/

namespace EcmaLower

/-- The name of a module whose file has no usable name. -/
def defaultModuleName : String := "illusionist"

/-- A name without the extension `.js`. -/
def stripJs (name : String) : String :=
  if name.endsWith ".js" then String.ofList (name.toList.take (name.length - 3)) else name

/-- A name, unless it is empty. -/
def nonEmpty? (name : String) : Option String :=
  if name = "" then none else some name

/-- A text with slashes in place of backslashes. -/
def forwardSlashes (s : String) : String :=
  s.map fun c => if c == '\\' then '/' else c

/-- The name of a file relative to a base. A file that is not below the base keeps its path if that is
relative. -/
def relativeId? (file base : String) : Option String :=
  let parts := Path.parts file
  let rest := (Path.below? parts (Path.parts base)).getD parts
  if rest.head? = some .root then none
  else nonEmpty? (stripJs (forwardSlashes (joinWith "/" (Path.names rest))))

/-- The name of a file without its directory. -/
def bareId? (file : String) : Option String :=
  nonEmpty? (stripJs ((segments (fun c => c == '/' || c == '\\') file).getLast?.getD file))

/-- The name that the module of a unit is registered under. -/
def moduleId (unit : SourceUnit) (options : CompileOptions) : String :=
  match options.moduleName.bind nonEmpty? with
  | some name => name
  | none =>
    let base := unit.basePath.or options.basePath
    match base.bind (relativeId? unit.fileName) with
    | some id => id
    | none => (bareId? unit.fileName).getD defaultModuleName

end EcmaLower
