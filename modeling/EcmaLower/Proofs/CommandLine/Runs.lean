import EcmaLower.Proofs.CommandLine.Reads

/-!
# What a run writes and reports

A run compiles its inputs as they were before, each on its own. What compiles goes to standard output or
below the output directory, and what does not is reported.

## Main results

* `CommandLine.writeResults_eq` — what is written and reported.
* `CommandLine.writesTo_or_failure` — every output is written, or a write fails.
* `CommandLine.run_outcome` — what a run does.
-/

namespace EcmaLower.CommandLine

open List

variable {inputs : List Input} {e : CompileError}

variable {σ : Type}

/-! ## Outputs -/

/-- The compiled texts of the inputs that compile, with the names they are written under. -/
def outputsOf (options : CompileOptions) (inputs : List Input) : List (String × String) :=
  inputs.filterMap fun i => (compile i.unit options).toOption.map (i.outputName, ·)

/-- The errors of the inputs that do not compile. -/
def errorsOf (options : CompileOptions) (inputs : List Input) : List CompileError :=
  inputs.filterMap fun i => match compile i.unit options with
    | .ok _ => none
    | .error e => some e

/-- The line that reports an input that does not compile. -/
def errorLine (e : CompileError) : String := "error: " ++ e.message ++ "\n"

/-- The directory of a file is made, if it has one. -/
def MakesRoom (fs : FileAccess (StateM σ)) (path : String) (s s' : σ) : Prop :=
  match Path.parent? path with
  | some up => fs.makeDirs up s = (.ok (), s')
  | none => s' = s

/-- `Writes fs dir outs s s'`: the outputs are written below a directory, one after the other, and no
write fails. -/
inductive Writes (fs : FileAccess (StateM σ)) (dir : String) : List (String × String) → σ → σ → Prop
  | nil {s : σ} : Writes fs dir [] s s
  | cons {name code : String} {outs : List (String × String)} {s s₁ s₂ s' : σ} :
    MakesRoom fs (Path.join dir name) s s₁ →
    fs.writeText (Path.join dir name) code s₁ = (.ok (), s₂) →
    Writes fs dir outs s₂ s' → Writes fs dir ((name, code) :: outs) s s'

/-- Without an output directory no file is written. -/
def WritesTo (fs : FileAccess (StateM σ)) : Option String → List (String × String) → σ → σ → Prop
  | none, _, s, s' => s' = s
  | some dir, outs, s, s' => Writes fs dir outs s s'

section Outputs

variable {fs : FileAccess (StateM σ)} {options : CompileOptions}

section Cons

variable {i : Input} {inputs : List Input}

lemma outputsOf_cons_ok {code : String} (h : compile i.unit options = .ok code) :
    outputsOf options (i :: inputs) = (i.outputName, code) :: outputsOf options inputs :=
  filterMap_cons_some (by rw [h]; rfl)

lemma outputsOf_cons_error (h : compile i.unit options = .error e) :
    outputsOf options (i :: inputs) = outputsOf options inputs :=
  filterMap_cons_none (by rw [h]; rfl)

lemma errorsOf_cons_ok {code : String} (h : compile i.unit options = .ok code) :
    errorsOf options (i :: inputs) = errorsOf options inputs :=
  filterMap_cons_none (by rw [h])

lemma errorsOf_cons_error (h : compile i.unit options = .error e) :
    errorsOf options (i :: inputs) = e :: errorsOf options inputs :=
  filterMap_cons_some (by rw [h])

/-- No error is reported iff every input compiles. -/
lemma errorsOf_eq_nil_iff :
    errorsOf options inputs = [] ↔ ∀ i ∈ inputs, ∃ code, compile i.unit options = .ok code := by
  rw [errorsOf, filterMap_eq_nil_iff]
  refine forall₂_congr fun i _ => ?_
  cases compile i.unit options <;> simp

end Cons

section WriteOutput

variable {dir name up : String} {s s₁ s₂ : σ}

lemma writeOutput_of_none (h : Path.parent? (Path.join dir name) = none) (code : String) :
    writeOutput fs dir name code =
      orFail ("failed to write " ++ Path.join dir name) (fs.writeText (Path.join dir name) code) := by
  simp only [writeOutput, h]

lemma writeOutput_of_some (h : Path.parent? (Path.join dir name) = some up) (code : String) :
    writeOutput fs dir name code = (do
      orFail ("failed to create " ++ up) (fs.makeDirs up)
      orFail ("failed to write " ++ Path.join dir name) (fs.writeText (Path.join dir name) code)) := by
  simp only [writeOutput, h]

lemma run_writeOutput {code : String} (hroom : MakesRoom fs (Path.join dir name) s s₁)
    (hwrite : fs.writeText (Path.join dir name) code s₁ = (.ok (), s₂)) :
    (writeOutput fs dir name code).run s = (.ok (), s₂) := by
  unfold MakesRoom at hroom
  cases hup : Path.parent? (Path.join dir name) with
  | none =>
    rw [hup] at hroom
    subst hroom
    rw [writeOutput_of_none hup]
    exact run_orFail_ok hwrite _
  | some up =>
    rw [hup] at hroom
    rw [writeOutput_of_some hup, run_bind_of_ok (run_orFail_ok hroom _)]
    exact run_orFail_ok hwrite _

/-- An output is written, or the run ends there. -/
lemma writeOutput_cases (dir name code : String) (s : σ) :
    (∃ s₁ s₂, MakesRoom fs (Path.join dir name) s s₁ ∧
      fs.writeText (Path.join dir name) code s₁ = (.ok (), s₂)) ∨
    ∃ f s₂, (writeOutput fs dir name code).run s = (.error f, s₂) := by
  unfold MakesRoom
  cases hup : Path.parent? (Path.join dir name) with
  | none =>
    rw [writeOutput_of_none hup]
    rcases hwrite : fs.writeText (Path.join dir name) code s with ⟨e | _, s₂⟩
    · exact .inr ⟨_, s₂, run_orFail_error hwrite _⟩
    · exact .inl ⟨s, s₂, rfl, hwrite⟩
  | some up =>
    rw [writeOutput_of_some hup]
    rcases hroom : fs.makeDirs up s with ⟨e | _, s₁⟩
    · exact .inr ⟨_, s₁, run_bind_of_error (run_orFail_error hroom _)⟩
    · rw [run_bind_of_ok (run_orFail_ok hroom _)]
      rcases hwrite : fs.writeText (Path.join dir name) code s₁ with ⟨e | _, s₂⟩
      · exact .inr ⟨_, s₂, run_orFail_error hwrite _⟩
      · exact .inl ⟨s₁, s₂, hroom, hwrite⟩

end WriteOutput

/-- **What is written and reported**, if no write fails. -/
theorem writeResults_eq {output : Option String} {s s' : σ}
    (h : WritesTo fs output (outputsOf options inputs) s s') (p : Progress) :
    writeResults fs output (compileAll options inputs) p s = (({
      stdout := p.stdout ++
        if output = none then String.join ((outputsOf options inputs).map (·.2)) else ""
      stderr := p.stderr ++ String.join ((errorsOf options inputs).map errorLine)
      failed := p.failed + (errorsOf options inputs).length }, none), s') := by
  induction inputs generalizing s p with
  | nil =>
    have hs : s' = s := by
      cases output with
      | none => exact h
      | some dir =>
        cases h
        rfl
    subst hs
    change ((p, none), s') = _
    simp [outputsOf, errorsOf]
  | cons i inputs ih =>
    rw [compileAll, map_cons, ← compileAll]
    cases hi : compile i.unit options with
    | error e =>
      rw [outputsOf_cons_error hi] at h
      rw [outputsOf_cons_error hi, errorsOf_cons_error hi, writeResults, ih h]
      simp [errorLine, String.append_assoc, Nat.add_assoc, Nat.add_comm 1]
    | ok code =>
      rw [outputsOf_cons_ok hi] at h
      rw [outputsOf_cons_ok hi, errorsOf_cons_ok hi]
      cases output with
      | none =>
        rw [writeResults, ih h]
        simp [String.append_assoc]
      | some dir =>
        cases h with
        | cons hroom hwrite hrest =>
          have hrun : ((writeOutput fs dir i.outputName code).run) s = (.ok (), _) :=
            run_writeOutput hroom hwrite
          rw [writeResults, bind_of_eq hrun]
          exact ih hrest p

/-- Every output is written, or a write fails. -/
lemma writesTo_or_failure (output : Option String) (inputs : List Input) (s : σ) (p : Progress) :
    (∃ s', WritesTo fs output (outputsOf options inputs) s s') ∨
      ∃ p' f s', writeResults fs output (compileAll options inputs) p s = ((p', some f), s') := by
  induction inputs generalizing s p with
  | nil =>
    cases output with
    | none => exact .inl ⟨s, rfl⟩
    | some dir => exact .inl ⟨s, .nil⟩
  | cons i inputs ih =>
    rw [compileAll, map_cons, ← compileAll]
    cases hi : compile i.unit options with
    | error e =>
      rw [outputsOf_cons_error hi, writeResults]
      exact ih s _
    | ok code =>
      rw [outputsOf_cons_ok hi]
      cases output with
      | none => exact .inl ⟨s, rfl⟩
      | some dir =>
        obtain ⟨s₁, s₂, hroom, hwrite⟩ | ⟨f, s₂, hfail⟩ := writeOutput_cases dir i.outputName code s
        · have hrun : ((writeOutput fs dir i.outputName code).run) s = (.ok (), _) :=
            run_writeOutput hroom hwrite
          rw [writeResults, bind_of_eq hrun]
          obtain ⟨s', hrest⟩ | hrest := ih s₂ p
          · exact .inl ⟨s', .cons hroom hwrite hrest⟩
          · exact .inr hrest
        · have hrun : ((writeOutput fs dir i.outputName code).run) s = (.error f, s₂) := hfail
          rw [writeResults, bind_of_eq hrun]
          exact .inr ⟨p, f, s₂, rfl⟩

end Outputs

/-! ## Runs -/

/-- The last line of a run in which inputs do not compile. -/
def closing (options : CompileOptions) (inputs : List Input) : String :=
  let message := toString (errorsOf options inputs).length ++ " of " ++ toString inputs.length ++
    " inputs failed to compile"
  if errorsOf options inputs = [] then "" else Failure.text { message }

lemma build_eq {fs : FileAccess (StateM σ)} {args : Arguments} {options : CompileOptions} {s s' : σ}
    (hwatch : args.watch = false) (h : WritesTo fs args.output (outputsOf options inputs) s s') :
    build fs args options inputs s = ({
      exit := if errorsOf options inputs = [] then 0 else 1
      stdout := if args.output = none then String.join ((outputsOf options inputs).map (·.2)) else ""
      stderr := String.join ((errorsOf options inputs).map errorLine) ++ closing options inputs }, s') := by
  unfold build
  rw [bind_of_eq (writeResults_eq h {}), hwatch]
  unfold closing
  by_cases herr : errorsOf options inputs = []
  · simp [herr]
    rfl
  · simp [herr]
    rfl

/-- An output goes to a place strictly below the output directory. -/
def IsOutputName (name : String) : Prop :=
  ∃ names, names ≠ [] ∧ (∀ n ∈ names, Path.IsName n) ∧ name = joinWith "/" names

lemma IsOutputName.below {name : String} (h : IsOutputName name) (dir : String) :
    Path.Below dir (Path.join dir name) := by
  obtain ⟨names, hne, hnames, rfl⟩ := h
  exact ⟨names, hne, hnames, Path.parts_join dir hne hnames⟩

section Names

variable {fs : FileAccess (StateM σ)} {s : σ} {args : Arguments} {inputs : List Input}
  (hnames : ∀ path shape, fs.shapeAt s path = some shape → shape.Proper)

include hnames

lemma isOutputName_of_areInputsAt {tree : Bool} {path : String} {group : List Input}
    (h : AreInputsAt fs s tree path group) : ∀ i ∈ group, IsOutputName i.outputName := by
  intro i hi
  cases tree with
  | false =>
    obtain ⟨j, ⟨text, -, hname, -⟩, rfl⟩ := h
    obtain rfl := mem_singleton.mp hi
    exact ⟨[i.outputName], by simp, by simpa using Path.isName_of_fileName? hname, rfl⟩
  | true =>
    obtain ⟨shape, hshape, hall⟩ := h
    obtain ⟨names, hmem, text, -, hname, -⟩ := exists_of_forall₂ hall.flip hi
    obtain ⟨hfile, last, hlast, -⟩ := mem_scriptsIn.mp hmem
    refine ⟨names, ?_, (hnames path shape hshape).isName hfile, hname⟩
    rintro rfl
    cases hlast

/-- **Every output goes to a place strictly below the output directory.** -/
lemma isOutputName_of_areInputs (h : AreInputs fs s args inputs) :
    ∀ i ∈ inputs, IsOutputName i.outputName := by
  intro i hi
  unfold AreInputs at h
  split at h
  · obtain ⟨text, -, rfl⟩ := h
    obtain rfl := mem_singleton.mp hi
    exact ⟨["stdin.js"], by simp, by simpa using ⟨by decide, by decide, by decide, by decide⟩, rfl⟩
  · obtain ⟨groups, hall, rfl⟩ := h
    obtain ⟨group, hgroup, hi⟩ := mem_flatten.mp hi
    obtain ⟨path, -, hat⟩ := exists_of_forall₂ hall.flip hgroup
    exact isOutputName_of_areInputsAt hnames hat i hi

end Names

section Prepare

variable {fs : FileAccess (StateM σ)} {argv : List String} {args : Arguments} {s s₁ : σ}
  (hargs : parse argv = .ok args)

include hargs

lemma run_of_prepare_error {f : Failure} (h : (prepare fs args).run s = (.error f, s₁)) :
    run fs argv s = ({ exit := 1, stderr := f.text }, s₁) := by
  unfold run
  rw [hargs]
  exact bind_of_eq h

lemma run_of_prepare_ok {options : CompileOptions}
    (h : (prepare fs args).run s = (.ok (options, inputs), s₁)) :
    run fs argv s = build fs args options inputs s₁ := by
  unfold run
  rw [hargs]
  exact bind_of_eq h

end Prepare

/-- **What a run does.** If its options or one of its inputs cannot be read, it ends with status 1, prints
nothing and writes nothing. Else every input is compiled as it was before the run, whatever becomes of
the others. What compiles is printed, or written below the output directory if there is one, and what does
not is reported, each in the order of the inputs. The status is 0 iff every input compiles. -/
theorem run_outcome {fs : FileAccess (StateM σ)} (hfs : fs.ReadsOnly) {s : σ}
    (hnames : ∀ path shape, fs.shapeAt s path = some shape → shape.Proper)
    {argv : List String} {args : Arguments} (hargs : parse argv = .ok args)
    (hwatch : args.watch = false) :
    (Unready fs s args ∧ ∃ f : Failure, run fs argv s =
      ({ exit := 1, stdout := "", stderr := f.text }, s)) ∨
    (¬Unready fs s args ∧ ∃ options inputs, IsOptions fs s args options ∧ AreInputs fs s args inputs ∧
      ∀ s', WritesTo fs args.output (outputsOf options inputs) s s' →
        ∃ report, run fs argv s = (report, s') ∧
          report.stdout = (if args.output = none then
            String.join ((outputsOf options inputs).map (·.2)) else "") ∧
          report.stderr = String.join ((errorsOf options inputs).map errorLine) ++
            closing options inputs ∧
          (report.exit = 0 ↔ ∀ i ∈ inputs, ∃ code, compile i.unit options = .ok code) ∧
          ∀ dir, args.output = some dir → ∀ o ∈ outputsOf options inputs,
            Path.Below dir (Path.join dir o.1)) := by
  cases yields_prepare (s := s) hfs hwatch with
  | error hprep hun => exact .inl ⟨hun, _, run_of_prepare_error hargs hprep⟩
  | @ok r hprep hr =>
    obtain ⟨options, inputs⟩ := r
    obtain ⟨hopt, hin⟩ := hr
    refine .inr ⟨not_unready hopt hin, options, inputs, hopt, hin, fun s' hs' => ?_⟩
    refine ⟨_, (run_of_prepare_ok hargs hprep).trans (build_eq hwatch hs'), rfl, rfl, ?_, ?_⟩
    · rw [← errorsOf_eq_nil_iff]
      by_cases h : errorsOf options inputs = [] <;> simp [h]
    · intro dir _ o ho
      obtain ⟨i, hi, hio⟩ := mem_filterMap.mp ho
      obtain ⟨code, -, rfl⟩ := Option.map_eq_some_iff.mp hio
      exact (isOutputName_of_areInputs hnames hin i hi).below dir

/-- Three files, of which the second does not compile. -/
theorem run_outcome_three :
    let t : FileTree := .dir [("a.js", .file "a;".toUTF8), ("b.js", .file "(".toUTF8),
      ("c.js", .file "c;".toUTF8)]
    let args : Arguments := { paths := ["a.js", "b.js", "c.js"] }
    ∃ options inputs report, IsOptions (.ofTree "") t args options ∧
      AreInputs (.ofTree "") t args inputs ∧
      run (.ofTree "") ["a.js", "b.js", "c.js"] t = (report, t) ∧
      report.stdout = String.join ((outputsOf options inputs).map (·.2)) ∧
      report.stderr = String.join ((errorsOf options inputs).map errorLine) ++ closing options inputs ∧
      ¬∀ i ∈ inputs, ∃ code, compile i.unit options = .ok code := by
  intro t args
  have hargs : parse ["a.js", "b.js", "c.js"] = .ok args := by decide +kernel
  have ht : t.shape.Proper := by
    simp only [t, FileTree.shape, FileTree.shapes, Shape.proper_dir_iff, forall_mem_cons,
      Shape.Proper.file, not_mem_nil, IsEmpty.forall_iff, implies_true, and_true]
    decide
  have hexit : (run (.ofTree "") ["a.js", "b.js", "c.js"] t).1.exit = 1 := by decide +kernel
  have hout : (run (.ofTree "") ["a.js", "b.js", "c.js"] t).1.stdout ≠ "" := by decide +kernel
  rcases run_outcome (FileAccess.lawful_ofTree "").toReadsOnly
    (fun _ _ => FileAccess.proper_of_shapeAt_ofTree ht) hargs rfl with ⟨-, f, hrun⟩ | ⟨-, options, inputs, hopt, hin, h⟩
  · rw [hrun] at hout
    exact absurd rfl hout
  · obtain ⟨report, hrun, hstdout, hstderr, hzero, -⟩ := h t rfl
    refine ⟨options, inputs, report, hopt, hin, hrun, hstdout, hstderr, fun hall => ?_⟩
    rw [hrun] at hexit
    exact absurd ((hzero.mpr hall).symm.trans hexit) (by decide)

end EcmaLower.CommandLine
