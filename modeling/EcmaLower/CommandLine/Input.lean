import EcmaLower.Files.Access
import EcmaLower.Module.Unit

/-!
# Inputs of a run
-/

namespace EcmaLower.CommandLine

/-- Why a run stops: a message, and the causes below it. -/
structure Failure where
  message : String
  causes : List String := []
deriving DecidableEq, Repr

/-- Causes with their numbers. -/
def numbered : Nat → List String → List String
  | _, [] => []
  | n, c :: cs => ("    " ++ toString n ++ ": " ++ c ++ "\n") :: numbered (n + 1) cs

/-- The text of a failure. Several causes are numbered. -/
def Failure.text (f : Failure) : String :=
  "Error: " ++ f.message ++ "\n" ++
  match f.causes with
  | [] => ""
  | [c] => "\nCaused by:\n    " ++ c ++ "\n"
  | cs => "\nCaused by:\n" ++ String.join (numbered 0 cs)

/-- A failure and its causes on one line. -/
def Failure.line (f : Failure) : String := joinWith ": " (f.message :: f.causes)

/-- A unit, and where its output goes below the output directory. -/
structure Input where
  unit : SourceUnit
  outputName : String
deriving DecidableEq, Repr

/-- A path that was given. -/
inductive Root
  | file (path : String)
  /-- A directory, with the names of the files below it. -/
  | tree (path : String) (shape : Shape)

/-- Whether a file is compiled with the directory it is in. -/
def isScript (fileName : String) : Bool := Path.extension? fileName = some "js"

/-- The files that are compiled with a directory, as the names that lead to them. -/
def scriptsIn (s : Shape) : List (List String) :=
  s.files.filter fun names => (names.getLast?.map isScript).getD false

section
variable {m : Type → Type} [Monad m]

/-- Fails with a message and the error of a file operation as its cause. -/
def orFail {α : Type} (message : String) (r : m (Except FileError α)) : ExceptT Failure m α := do
  match ← r with
  | .ok a => return a
  | .error e => throw { message, causes := [e.message] }

/-- What a path stands for. -/
def Root.ofPath (fs : FileAccess m) (isTree : Bool) (path : String) : ExceptT Failure m Root := do
  if isTree then
    match ← fs.directory? path with
    | some shape => return .tree path shape
    | none => throw { message := path ++ " is not a directory" }
  else return .file path

/-- The input of a file. -/
def readFile (fs : FileAccess m) (path : String) : ExceptT Failure m Input := do
  let text ← orFail ("failed to read " ++ path) (fs.readText path)
  match Path.fileName? path with
  | some outputName => return { unit := { text, fileName := path }, outputName }
  | none => throw { message := path ++ " has no file name" }

/-- The input of a file below a directory. -/
def readBelow (fs : FileAccess m) (dir : String) (names : List String) :
    ExceptT Failure m Input := do
  let outputName := joinWith "/" names
  let path := Path.join dir outputName
  let text ← orFail ("failed to read " ++ path) (fs.readText path)
  return { unit := { text, fileName := path, basePath := some dir }, outputName }

/-- The inputs at a path: the file, or the scripts below the directory in order. -/
def Root.inputs (fs : FileAccess m) : Root → ExceptT Failure m (List Input)
  | .file path => do return [← readFile fs path]
  | .tree path shape => (scriptsIn shape).mapM (readBelow fs path)

/-- The input on standard input. -/
def readInput (fs : FileAccess m) : ExceptT Failure m Input := do
  let text ← orFail "failed to read stdin" fs.readInput
  return { unit := .stdin text, outputName := "stdin.js" }

end

end EcmaLower.CommandLine
