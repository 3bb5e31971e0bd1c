import EcmaLower.Print.Tree
import EcmaLower.Syntax.Script

/-!
# Printing scripts
-/

namespace EcmaLower

/-- The text of a script with the given comments. -/
def Script.print (s : Script) (target : Target) (comments : Comments) : String :=
  let write : Print Unit := do
    Print.leading s.span.lo
    match s.hashbang with
    | some line =>
      Print.text ("#!" ++ line)
      Print.line
    | none => pure ()
    for stmt in s.body do
      Print.tree stmt .whole
    Print.trailing s.span.hi
  (write.run { target, comments }).2.out

end EcmaLower
