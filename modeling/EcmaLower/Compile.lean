import EcmaLower.Lower.Downlevel
import EcmaLower.Module.Identifier
import EcmaLower.Module.Transpile

/-!
# Compilation

A unit is read as a module, turned into a script of a convention, lowered, and read once more to make
sure that the result is a script.
-/

namespace EcmaLower

/-- The version of the compiler. -/
def version : String := "0.1.0"

/-- A fault with the file it is in. -/
def SyntaxFault.text (file : String) (f : SyntaxFault) : String :=
  file ++ ":" ++ toString f.line ++ ":" ++ toString f.column ++ ": " ++ f.message

/-- Why a unit does not compile. -/
inductive CompileError
  /-- The text is not a module. -/
  | parse (file : String) (fault : SyntaxFault)
  /-- The script of the module cannot be read back. -/
  | unreadableModule (file : String) (fault : SyntaxFault)
  /-- The lowered script cannot be read back. -/
  | unreadableOutput (file : String) (fault : SyntaxFault)
deriving DecidableEq, Repr

/-- The text of an error. -/
def CompileError.message : CompileError → String
  | parse file f => "parse error: " ++ f.text file
  | unreadableModule file f =>
    "internal error in " ++ file ++ ": module stage produced unparsable text: " ++ f.text file
  | unreadableOutput file f =>
    "internal error in " ++ file ++ ": output does not parse as a script: " ++ f.text file

/-- The compiled text of a unit. -/
def compile (unit : SourceUnit) (options : CompileOptions) : Except CompileError String := do
  let file := unit.fileName
  let registration : Registration := ⟨options.moduleType, moduleId unit options⟩
  let wrapped ← (transpile registration unit.text).mapError (.parse file)
  let lowered ← (downlevel Pass.canonical wrapped).mapError (.unreadableModule file)
  let _ ← (parseScript lowered).mapError (.unreadableOutput file)
  return lowered

end EcmaLower
