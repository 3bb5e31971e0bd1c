import EcmaLower.CommandLine.Arguments
import EcmaLower.CommandLine.Input
import EcmaLower.Config.Options

/-!
# Runs of the compiler

A run reads its options and all inputs, compiles them, and writes what compiled. A unit that does not
compile is reported and does not stop the others.
-/

namespace EcmaLower.CommandLine

/-- The outcome of a run. -/
structure Report where
  exit : Nat := 0
  stdout : String := ""
  stderr : String := ""
  /-- The inputs that are to be compiled again when they change. -/
  watched : List Input := []
deriving DecidableEq, Repr

/-- Why options are refused. -/
inductive ConfigError
  | moduleType (name : String)
  | read (path : String) (error : FileError)
  | invalid (path : String) (fault : Config.Fault)
deriving DecidableEq, Repr

namespace ConfigError

/-- The text of an error. -/
def message : ConfigError → String
  | moduleType name => unknownModuleType name
  | read path _ => "failed to read config file " ++ path
  | invalid path fault => "invalid config file " ++ path ++ ": " ++ fault.message

/-- The text of an error, and the text of what caused it. -/
def chain (e : ConfigError) : List String :=
  e.message :: match e with
    | moduleType _ => []
    | read _ error => [error.message]
    | invalid _ fault => [fault.message]

/-- The text of an error that ends a compilation. -/
def fullMessage (e : ConfigError) : String := "configuration error: " ++ e.message

/-- The failure of a run whose options are refused. -/
def failure (e : ConfigError) : Failure := ⟨e.fullMessage, e.chain⟩

end ConfigError

section
variable {m : Type → Type} [Monad m]

/-- The options in a file. -/
def loadOptions (fs : FileAccess m) (path : String) : m (Except ConfigError CompileOptions) := do
  match ← fs.readText path with
  | .error e => return .error (.read path e)
  | .ok text => return (Config.read text).mapError (.invalid path)

/-- The options with those that the arguments give. -/
def overrideOptions (args : Arguments) (o : CompileOptions) : Except ConfigError CompileOptions := do
  let o ← match args.moduleType with
    | none => pure o
    | some name =>
      match ModuleType.ofName? name with
      | some moduleType => pure { o with moduleType }
      | none => throw (.moduleType name)
  return { o with moduleName := args.moduleName.or o.moduleName }

/-- The options of a run. -/
def optionsOf (fs : FileAccess m) (args : Arguments) : ExceptT Failure m CompileOptions := do
  let base ← ExceptT.lift (match args.config with
    | none => pure (Except.ok {})
    | some path => loadOptions fs path)
  match base >>= overrideOptions args with
  | .ok o => return o
  | .error e => throw e.failure

/-! ## Outputs -/

/-- What was written to the output streams, and how many units did not compile. -/
structure Progress where
  stdout : String := ""
  stderr : String := ""
  failed : Nat := 0
deriving DecidableEq, Repr

/-- Writes an output below a directory. -/
def writeOutput (fs : FileAccess m) (dir name code : String) : ExceptT Failure m Unit := do
  let path := Path.join dir name
  match Path.parent? path with
  | some up => orFail ("failed to create " ++ up) (fs.makeDirs up)
  | none => pure ()
  orFail ("failed to write " ++ path) (fs.writeText path code)

/-- Writes the results of compilations, until a file cannot be written. -/
def writeResults (fs : FileAccess m) (output : Option String) :
    List (Input × Except CompileError String) → Progress → m (Progress × Option Failure)
  | [], p => return (p, none)
  | (_, .error e) :: rest, p =>
    writeResults fs output rest
      { p with stderr := p.stderr ++ "error: " ++ e.message ++ "\n", failed := p.failed + 1 }
  | (input, .ok code) :: rest, p => do
    match output with
    | none => writeResults fs output rest { p with stdout := p.stdout ++ code }
    | some dir =>
      match ← (writeOutput fs dir input.outputName code).run with
      | .ok _ => writeResults fs output rest p
      | .error f => return (p, some f)

/-- Compiles inputs. -/
def compileAll (options : CompileOptions) (inputs : List Input) :
    List (Input × Except CompileError String) :=
  inputs.map fun i => (i, compile i.unit options)

/-! ## Runs -/

/-- The options and the inputs of a run. -/
def prepare (fs : FileAccess m) (args : Arguments) :
    ExceptT Failure m (CompileOptions × List Input) := do
  let options ← optionsOf fs args
  let roots ← args.paths.mapM (Root.ofPath fs args.tree)
  if args.watch && roots.isEmpty then throw { message := "--watch needs at least one path" }
  if roots.isEmpty then return (options, [← readInput fs])
  return (options, (← roots.mapM (Root.inputs fs)).flatten)

/-- Compiles and writes inputs, and reports what came of it. -/
def build (fs : FileAccess m) (args : Arguments) (options : CompileOptions) (inputs : List Input) :
    m Report := do
  let (p, failure?) ← writeResults fs args.output (compileAll options inputs) {}
  match failure? with
  | some f => return { exit := 1, stdout := p.stdout, stderr := p.stderr ++ f.text }
  | none =>
    if args.watch then return { stdout := p.stdout, stderr := p.stderr, watched := inputs }
    else if p.failed = 0 then return { stdout := p.stdout, stderr := p.stderr }
    else
      let message := toString p.failed ++ " of " ++ toString inputs.length ++
        " inputs failed to compile"
      let f : Failure := { message }
      return { exit := 1, stdout := p.stdout, stderr := p.stderr ++ f.text }

/-- A run on given arguments and files. -/
def run (fs : FileAccess m) (args : List String) : m Report := do
  match parse args with
  | .error .help => return { stdout := helpText }
  | .error .version => return { stdout := versionText }
  | .error (.error e) => return { exit := 2, stderr := e.message }
  | .ok args =>
    match ← (prepare fs args).run with
    | .error f => return { exit := 1, stderr := f.text }
    | .ok (options, inputs) => build fs args options inputs

/-! ## Runs that go on -/

/-- Compiles and writes one input again, and says so. -/
def rebuildInput (fs : FileAccess m) (args : Arguments) (options : CompileOptions) (input : Input) :
    m Report := do
  let (p, failure?) ← writeResults fs args.output (compileAll options [input]) {}
  let note := match failure? with
    | some f => "error: " ++ f.line ++ "\n"
    | none => if p.failed = 0 then "Compiled " ++ input.unit.fileName ++ "\n" else ""
  return { stdout := p.stdout, stderr := p.stderr ++ note }

/-- A later look at the inputs of a run, which had found `known`: those that are new or have changed
are compiled and written again. -/
def rebuild (fs : FileAccess m) (args : List String) (known : List Input) : m Report := do
  match parse args with
  | .error _ => return {}
  | .ok args =>
    match ← (prepare fs args).run with
    | .error f => return { stderr := "error: " ++ f.line ++ "\n", watched := known }
    | .ok (options, inputs) =>
      let reports ← (inputs.filter (!known.contains ·)).mapM (rebuildInput fs args options)
      return {
        stdout := String.join (reports.map (·.stdout))
        stderr := String.join (reports.map (·.stderr))
        watched := inputs }

end

end EcmaLower.CommandLine
