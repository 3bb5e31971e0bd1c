import EcmaLower.Module.Layout
import EcmaLower.Parser.Program
import EcmaLower.Print.Script

/-!
# Modules as scripts
-/

namespace EcmaLower

/-- The text of a module as a script that follows a convention. -/
def transpile (r : Registration) (text : String) : Except SyntaxFault String := do
  let parsed ← parseModule text
  let layout := Layout.ofItems r parsed.body
  let script : Script := { body := layout.regions.statements }
  return r.type.wrap r.moduleId layout.deps (script.print .latest parsed.comments)

end EcmaLower
