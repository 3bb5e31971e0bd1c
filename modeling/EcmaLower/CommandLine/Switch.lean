import EcmaLower.Compile

/-!
# Switches of the command line
-/

namespace EcmaLower.CommandLine

/-- The name of the program. -/
def programName : String := "illusionist"

/-- The switches. -/
inductive Switch
  | output | moduleName | moduleType | tree | watch | config | version | help
deriving DecidableEq, Repr

namespace Switch

/-- The switches, in the order in which they are listed. -/
def all : List Switch := [output, moduleName, moduleType, tree, watch, config, version, help]

/-- The letter of a switch. -/
def letter : Switch → Char
  | output => 'o'
  | moduleName => 'm'
  | moduleType => 'M'
  | tree => 't'
  | watch => 'w'
  | config => 'c'
  | version => 'v'
  | help => 'h'

/-- The name of a switch. -/
def name : Switch → String
  | output => "output"
  | moduleName => "module-name"
  | moduleType => "module-type"
  | tree => "tree"
  | watch => "watch"
  | config => "config"
  | version => "version"
  | help => "help"

/-- What the value of a switch is called, if it takes one. -/
def valueName? : Switch → Option String
  | output => some "DIR"
  | moduleName => some "NAME"
  | moduleType => some "TYPE"
  | config => some "FILE"
  | _ => none

/-- Whether the value of a switch is a path, which cannot be empty. -/
def takesPath : Switch → Bool
  | output | config => true
  | _ => false

/-- What a switch does. -/
def about : Switch → String
  | output => "Write outputs under DIR instead of stdout"
  | moduleName => "Module identifier to register the output under"
  | moduleType => "Output module convention: amd, cjs or globals"
  | tree => "Compile every .js file below each PATH, mirroring the directory structure"
  | watch => "Keep running and recompile inputs when they change"
  | config => "JSON config file with moduleName, moduleType and basePath; flags take precedence"
  | version => "Print version"
  | help => "Print help"

/-- A switch with its value as it is written: `--output <DIR>`. -/
def text (s : Switch) : String :=
  "--" ++ s.name ++ match s.valueName? with
    | some v => " <" ++ v ++ ">"
    | none => ""

/-- The switch of a letter. -/
def ofLetter? (c : Char) : Option Switch := all.find? (·.letter == c)

/-- The switch of a name. -/
def ofName? (n : String) : Option Switch := all.find? (·.name == n)

end Switch

/-- How the program is called. -/
def usage : String := "Usage: " ++ programName ++ " [OPTIONS] [PATHS]..."

/-- A text filled up with spaces. -/
def padded (width : Nat) (s : String) : String :=
  s ++ String.ofList (List.replicate (width - s.length) ' ')

/-- The line that describes a switch. -/
def helpLine (s : Switch) : String :=
  "  -" ++ String.singleton s.letter ++ ", " ++ padded 22 s.text ++ s.about ++ "\n"

/-- The text that describes the program. -/
def helpText : String :=
  "Compile ES6 modules and syntax to ES5 AMD, CommonJS or globals\n\n" ++ usage ++ "\n\n" ++
  "Arguments:\n" ++
  "  [PATHS]...  Input files, or directories with --tree. Reads stdin when omitted\n\n" ++
  "Options:\n" ++ String.join (Switch.all.map helpLine)

/-- The text that names the version. -/
def versionText : String := programName ++ " " ++ version ++ "\n"

end EcmaLower.CommandLine
