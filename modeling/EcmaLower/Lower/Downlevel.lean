import EcmaLower.Lower.Pass
import EcmaLower.Parser.Program
import EcmaLower.Print.Script

/-!
# Down-leveling

The text of a script after a list of passes. A text with nothing to lower comes back as it is.
-/

namespace EcmaLower

/-- The script of a text that was read. -/
def Parsed.script (p : Parsed Node) : Script := ⟨p.hashbang, p.body, p.span⟩

/-- The text of a script after the given passes. -/
def downlevel (passes : List Pass) (text : String) : Except SyntaxFault String := do
  let parsed ← parseScript text
  let (lowered, count) := runPasses passes parsed.script
  if count = 0 then return text
  return lowered.print .es5 parsed.comments

end EcmaLower
