import EcmaLower.Proofs.CommandLine.Runs

/-!
# Outputs that stand

The outputs of a run are written in the order of the inputs, and nothing keeps two inputs from having one
output name. Then the output of the later one takes the place of the earlier one.

## Main results

* `CommandLine.Writes.textAt_last` — the last output of a name stands.
* `CommandLine.last_output_stands` — when the outputs of a run all stand.
* `CommandLine.first_output_lost` — they need not.
-/

namespace EcmaLower.CommandLine

variable {options : CompileOptions} {inputs : List Input} {code name text : String}

variable {σ : Type} {fs : FileAccess (StateM σ)} {dir : String} {s s' : σ}

/-! ## Texts after writes -/

section Writes

variable (hfs : fs.Lawful)

include hfs

lemma MakesRoom.textAt {path other : String} (h : MakesRoom fs path s s') (htext : fs.textAt s other = .ok text) :
    fs.textAt s' other = .ok text := by
  unfold MakesRoom at h
  split at h
  · exact hfs.text_of_makeDirs h htext
  · exact h ▸ htext

/-- A file below the output directory stays as it is if no output has its name. -/
lemma Writes.textAt_of_forall_ne {outs : List (String × String)} (h : Writes fs dir outs s s')
    (houts : ∀ o ∈ outs, IsOutputName o.1) (hname : IsOutputName name) (hne : ∀ o ∈ outs, o.1 ≠ name)
    (htext : fs.textAt s (Path.join dir name) = .ok text) : fs.textAt s' (Path.join dir name) = .ok text := by
  induction h with
  | nil => exact htext
  | @cons name' code outs s s₁ s₂ s' hroom hwrite _ ih =>
    refine ih (fun o ho => houts o (by simp [ho])) (fun o ho => hne o (by simp [ho])) ?_
    obtain ⟨names', hne', hnames', rfl⟩ := houts _ (List.mem_cons_self)
    obtain ⟨names, hne₀, hnames, rfl⟩ := hname
    refine hfs.text_of_write_ne hne' hnames' hne₀ hnames ?_ hwrite (hroom.textAt hfs htext)
    rintro rfl
    exact hne _ List.mem_cons_self rfl

/-- **The last output of a name stands.** -/
lemma Writes.textAt_last {before after : List (String × String)}
    (h : Writes fs dir (before ++ (name, code) :: after) s s')
    (houts : ∀ o ∈ before ++ (name, code) :: after, IsOutputName o.1) (hlast : ∀ o ∈ after, o.1 ≠ name) :
    fs.textAt s' (Path.join dir name) = .ok code := by
  induction before generalizing s with
  | nil =>
    cases h with
    | cons hroom hwrite hrest =>
      exact hrest.textAt_of_forall_ne hfs (fun o ho => houts o (by simp [ho]))
        (houts (name, code) (by simp)) hlast (hfs.text_of_write hwrite)
  | cons o before ih =>
    cases h with
    | cons hroom hwrite hrest => exact ih hrest fun o ho => houts o (by simp [ho])

end Writes

/-! ## Runs that succeed -/

/-- A run that succeeds writes all outputs. -/
lemma writesTo_of_exit_eq_zero {args : Arguments} {report : Report} (hwatch : args.watch = false)
    (h : build fs args options inputs s = (report, s')) (hexit : report.exit = 0) :
    WritesTo fs args.output (outputsOf options inputs) s s' ∧
      ∀ i ∈ inputs, ∃ code, compile i.unit options = .ok code := by
  obtain ⟨s₁, hs₁⟩ | ⟨p, f, s₁, hfail⟩ := writesTo_or_failure args.output inputs s {}
  · rw [build_eq hwatch hs₁] at h
    cases h
    refine ⟨hs₁, errorsOf_eq_nil_iff.mp ?_⟩
    by_contra hne
    simp [hne] at hexit
  · unfold build at h
    rw [bind_of_eq hfail] at h
    cases h
    cases hexit

/-- The output of each input, if all compile. -/
lemma outputsOf_append_cons {before after : List Input} {j : Input} (h : compile j.unit options = .ok code) :
    outputsOf options (before ++ j :: after) =
      outputsOf options before ++ (j.outputName, code) :: outputsOf options after := by
  rw [outputsOf, List.filterMap_append, ← outputsOf, ← outputsOf, outputsOf_cons_ok h]

lemma exists_of_mem_outputsOf {o : String × String} (h : o ∈ outputsOf options inputs) :
    ∃ i ∈ inputs, i.outputName = o.1 := by
  obtain ⟨i, hi, hio⟩ := List.mem_filterMap.mp h
  obtain ⟨code, -, rfl⟩ := Option.map_eq_some_iff.mp hio
  exact ⟨i, hi, rfl⟩

/-- An input is the last of its output name, or a later one is. -/
lemma exists_last {i : Input} (hi : i ∈ inputs) :
    ∃ before j after, inputs = before ++ j :: after ∧ j.outputName = i.outputName ∧
      ∀ k ∈ after, k.outputName ≠ j.outputName := by
  induction inputs generalizing i with
  | nil => cases hi
  | cons x rest ih =>
    by_cases h : ∃ k ∈ rest, k.outputName = i.outputName
    · obtain ⟨k, hk, hki⟩ := h
      obtain ⟨before, j, after, rfl, hj, hafter⟩ := ih hk
      exact ⟨x :: before, j, after, rfl, hj.trans hki, hafter⟩
    · rcases List.mem_cons.mp hi with rfl | hi
      · exact ⟨[], i, rest, rfl, rfl, fun k hk hki => h ⟨k, hk, hki⟩⟩
      · exact absurd ⟨i, hi, rfl⟩ h

/-- **Outputs of a run that succeeds.** Of the inputs with one output name, the last one has its output
there. Hence every input has its output there iff those with one output name compile to one text. -/
theorem last_output_stands (hfs : fs.Lawful)
    (hnames : ∀ path shape, fs.shapeAt s path = some shape → shape.Proper)
    {argv : List String} {args : Arguments} (hargs : parse argv = .ok args) (hwatch : args.watch = false)
    (hout : args.output = some dir) {report : Report} (hrun : run fs argv s = (report, s'))
    (hexit : report.exit = 0) :
    ∃ options inputs, IsOptions fs s args options ∧ AreInputs fs s args inputs ∧
      (∀ before j after, inputs = before ++ j :: after → (∀ k ∈ after, k.outputName ≠ j.outputName) →
        ∃ code, compile j.unit options = .ok code ∧
          fs.textAt s' (Path.join dir j.outputName) = .ok code) ∧
      ((∀ i ∈ inputs, ∃ code, compile i.unit options = .ok code ∧
          fs.textAt s' (Path.join dir i.outputName) = .ok code) ↔
        ∀ i ∈ inputs, ∀ j ∈ inputs, i.outputName = j.outputName →
          compile i.unit options = compile j.unit options) := by
  cases yields_prepare (s := s) hfs.toReadsOnly hwatch with
  | error hprep _ =>
    rw [run_of_prepare_error hargs hprep] at hrun
    cases hrun
    cases hexit
  | @ok r hprep hr =>
    obtain ⟨options, inputs⟩ := r
    obtain ⟨hopt, hin⟩ := hr
    rw [run_of_prepare_ok hargs hprep] at hrun
    obtain ⟨hwrites, hall⟩ := writesTo_of_exit_eq_zero hwatch hrun hexit
    rw [hout] at hwrites
    have houts : ∀ o ∈ outputsOf options inputs, IsOutputName o.1 := by
      intro o ho
      obtain ⟨i, hi, hio⟩ := exists_of_mem_outputsOf ho
      exact hio ▸ isOutputName_of_areInputs hnames hin i hi
    have hlast : ∀ before j after, inputs = before ++ j :: after →
        (∀ k ∈ after, k.outputName ≠ j.outputName) → ∃ code, compile j.unit options = .ok code ∧
          fs.textAt s' (Path.join dir j.outputName) = .ok code := by
      rintro before j after rfl hafter
      obtain ⟨code, hcode⟩ := hall j (by simp)
      rw [outputsOf_append_cons hcode] at hwrites houts
      refine ⟨code, hcode, Writes.textAt_last hfs hwrites houts fun o ho => ?_⟩
      obtain ⟨k, hk, hko⟩ := exists_of_mem_outputsOf ho
      exact hko ▸ hafter k hk
    refine ⟨options, inputs, hopt, hin, hlast, fun hkept i hi j hj hij => ?_, fun hsame i hi => ?_⟩
    · obtain ⟨code, hcode, htext⟩ := hkept i hi
      obtain ⟨code', hcode', htext'⟩ := hkept j hj
      rw [hij] at htext
      rw [hcode, hcode', Except.ok.inj (htext.symm.trans htext')]
    · obtain ⟨before, j, after, rfl, hji, hafter⟩ := exists_last hi
      obtain ⟨code, hcode, htext⟩ := hlast before j after rfl hafter
      refine ⟨code, (hsame i hi j (by simp) hji.symm).trans hcode, hji ▸ htext⟩

/-- Two files of one name. -/
theorem last_output_stands_twoFiles :
    let t : FileTree := .dir [("a", .dir [("x.js", .file "a;".toUTF8)]),
      ("b", .dir [("x.js", .file "b;".toUTF8)])]
    let args : Arguments := { paths := ["a/x.js", "b/x.js"], output := some "out" }
    ∃ report t', run (.ofTree "") ["-o", "out", "a/x.js", "b/x.js"] t = (report, t') ∧ report.exit = 0 ∧
      ∃ options inputs, IsOptions (.ofTree "") t args options ∧ AreInputs (.ofTree "") t args inputs ∧
        ∀ before j after, inputs = before ++ j :: after → (∀ k ∈ after, k.outputName ≠ j.outputName) →
          ∃ code, compile j.unit options = .ok code ∧
            (FileAccess.ofTree "").textAt t' (Path.join "out" j.outputName) = .ok code := by
  intro t args
  have hargs : parse ["-o", "out", "a/x.js", "b/x.js"] = .ok args := by decide +kernel
  have ht : t.shape.Proper := by
    simp only [t, FileTree.shape, FileTree.shapes, Shape.proper_dir_iff, List.forall_mem_cons,
      Shape.Proper.file, List.not_mem_nil, IsEmpty.forall_iff, implies_true, and_true]
    decide
  have hexit : (run (.ofTree "") ["-o", "out", "a/x.js", "b/x.js"] t).1.exit = 0 := by decide +kernel
  rcases hrun : run (.ofTree "") ["-o", "out", "a/x.js", "b/x.js"] t with ⟨report, t'⟩
  rw [hrun] at hexit
  obtain ⟨options, inputs, hopt, hin, hlast, -⟩ := last_output_stands (FileAccess.lawful_ofTree "")
    (fun _ _ => FileAccess.proper_of_shapeAt_ofTree ht) hargs rfl rfl hrun hexit
  exact ⟨report, t', rfl, hexit, options, inputs, hopt, hin, hlast⟩

/-- The output of the first of two files of one name is lost, in a run that succeeds. -/
theorem first_output_lost :
    let t : FileTree := .dir [("a", .dir [("x.js", .file "a;".toUTF8)]),
      ("b", .dir [("x.js", .file "b;".toUTF8)])]
    let i : Input := ⟨{ text := "a;", fileName := "a/x.js" }, "x.js"⟩
    let (report, t') := run (.ofTree "") ["-o", "out", "a/x.js", "b/x.js"] t
    report.exit = 0 ∧ IsFileInput (.ofTree "") t "a/x.js" i ∧
      ∃ code, compile i.unit {} = .ok code ∧
        (FileAccess.ofTree "").textAt t' (Path.join "out" i.outputName) ≠ .ok code := by
  refine ⟨by decide +kernel, ⟨"a;", by decide +kernel, by decide +kernel, rfl⟩, ?_⟩
  exact ⟨"define(\"x\",\n  [\"exports\"],\n  function(__exports__) \x7b\n    \"use strict\";\na;\n  \x7d);\n",
    by decide +kernel, by decide +kernel⟩

end EcmaLower.CommandLine
