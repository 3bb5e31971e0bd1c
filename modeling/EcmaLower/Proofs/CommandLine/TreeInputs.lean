import EcmaLower.Proofs.CommandLine.Reads

/-!
# Inputs of a tree

The output of a script in a tree and its module identifier are both named for its path below the root.
They are found in different ways, the identifier from the path as it is spelled and its base, but they
agree but for the extension.

## Main results

* `CommandLine.moduleId_below` — the identifier of a script in a tree.
* `CommandLine.tree_inputs_named` — scripts, outputs and modules are in step.
-/

namespace EcmaLower

open List Option

variable {names : List String} {dir name : String}

/-! ## Scripts -/

/-- A script has a name before its extension. -/
lemma exists_stem (h : CommandLine.isScript name = true) : ∃ stem, stem ≠ "" ∧ name = stem ++ ".js" := by
  have hext : Path.extension? name = some "js" := of_decide_eq_true h
  have hjoin : joinWith "." (segments (· == '.') name) = name := joinWith_segments rfl name
  unfold Path.extension? at hext
  split at hext
  next ext before more hrev =>
    split at hext
    · cases hext
    next hstem =>
      obtain rfl := some_inj.mp hext
      have hpieces : segments (· == '.') name = (more.reverse ++ [before]) ++ ["js"] := by
        rw [← reverse_reverse (segments _ name), hrev]
        simp
      rw [hpieces, joinWith_concat (by simp), String.append_assoc] at hjoin
      refine ⟨joinWith "." (more.reverse ++ [before]), ?_, hjoin.symm⟩
      cases more with
      | nil =>
        rintro (rfl : before = "")
        exact hstem rfl
      | cons m more =>
        rw [joinWith_concat (by simp)]
        intro hempty
        have := congrArg String.toList hempty
        simp at this
  next => cases hext

lemma stripJs_append (s : String) : stripJs (s ++ ".js") = s := by
  have hends : (s ++ ".js").endsWith ".js" = true := by
    rw [String.endsWith_eq_endsWith_toSlice, String.Slice.endsWith_string_iff, String.copy_toSlice,
      String.toList_append]
    exact suffix_append _ _
  have hlen : (s ++ ".js").length - 3 = s.toList.length := by
    rw [String.length_append, String.length_toList]
    exact Nat.add_sub_cancel _ 3
  rw [stripJs, if_pos hends, hlen, String.toList_append, take_left, String.ofList_toList]

lemma forwardSlashes_eq_self {s : String} (h : '\\' ∉ s.toList) : forwardSlashes s = s := by
  apply String.toList_inj.mp
  rw [forwardSlashes, String.toList_map]
  refine (map_congr_left fun c hc => ?_).trans (map_id _)
  have hne : c ≠ '\\' := fun heq => h (heq ▸ hc)
  simp [hne]

lemma notMem_joinWith {c : Char} {sep : String} {l : List String} (hsep : c ∉ sep.toList)
    (h : ∀ s ∈ l, c ∉ s.toList) : c ∉ (joinWith sep l).toList := by
  induction l with
  | nil => simp [joinWith]
  | cons s l ih =>
    have hs := h s (by simp)
    rcases eq_or_ne l [] with rfl | hl
    · exact hs
    · rw [joinWith_cons hl]
      simp [hs, hsep, ih fun t ht => h t (by simp [ht])]

namespace CommandLine

open EcmaLower.Path

/-- The path of a script below a directory ends with the extension and has a name before it. -/
lemma exists_stem_joinWith (hlast : names.getLast? = some name) (hjs : isScript name = true) :
    ∃ stem, stem ≠ "" ∧ joinWith "/" names = stem ++ ".js" := by
  obtain ⟨stem, hstem, rfl⟩ := exists_stem hjs
  obtain ⟨init, rfl⟩ := getLast?_eq_some_iff.mp hlast
  rcases eq_or_ne init [] with rfl | hinit
  · exact ⟨stem, hstem, rfl⟩
  · refine ⟨joinWith "/" init ++ "/" ++ stem, ?_, ?_⟩
    · intro hempty
      have := congrArg String.toList hempty
      simp at this
    · rw [joinWith_concat hinit]
      simp only [String.append_assoc]

/-- **The name of a module in a tree**: the path of the file below the directory, without its
extension. -/
theorem moduleId_below {text : String} {options : CompileOptions} (hnames : ∀ n ∈ names, IsName n)
    (hlast : names.getLast? = some name) (hjs : isScript name = true) (hback : ∀ n ∈ names, '\\' ∉ n.toList)
    (hopt : options.moduleName.bind nonEmpty? = none) :
    moduleId { text, fileName := join dir (joinWith "/" names), basePath := some dir } options ++ ".js" =
      joinWith "/" names := by
  have hne : names ≠ [] := by
    rintro rfl
    cases hlast
  obtain ⟨stem, hstem, hjoin⟩ := exists_stem_joinWith hlast hjs
  have hrel : relativeId? (join dir (joinWith "/" names)) dir = some stem := by
    have hhead : (names.map Part.name).head? ≠ some .root := by
      cases names <;> simp
    unfold relativeId?
    simp only [parts_join dir hne hnames, below?_append, getD_some, if_neg hhead, names_map_name]
    rw [forwardSlashes_eq_self (notMem_joinWith (by decide) hback), hjoin, stripJs_append, nonEmpty?,
      if_neg hstem]
  rw [moduleId, hopt]
  simp only [some_or, bind_some, hrel]
  exact hjoin.symm

/-- An input that was read below a directory. -/
lemma eq_of_run_readBelow {σ : Type} {fs : FileAccess (StateM σ)} {i : Input} {s s' : σ}
    (h : (readBelow fs dir names).run s = (.ok i, s')) : i.outputName = joinWith "/" names ∧ ∃ text, i.unit =
      { text, fileName := join dir (joinWith "/" names), basePath := some dir } := by
  unfold readBelow at h
  obtain ⟨text, s₁, -, ⟨⟩⟩ := exists_of_run_bind h
  exact ⟨rfl, text, rfl⟩

/-- No name holds a backslash, which a module identifier would turn into a slash. -/
def NoBackslash (names : List String) : Prop := ∀ n ∈ names, '\\' ∉ n.toList

instance (names : List String) : Decidable (NoBackslash names) :=
  inferInstanceAs (Decidable (∀ n ∈ names, '\\' ∉ n.toList))

/-- **Files, outputs and modules of a tree are in step.** Each script below a directory gives one input.
Its output goes to the path of the script below the directory, and so does its module identifier, but for
the extension. Hence different scripts are different modules. -/
theorem tree_inputs_named {σ : Type} {fs : FileAccess (StateM σ)} {dir : String} {shape : Shape}
    (hshape : shape.Proper) {options : CompileOptions}
    (hopt : options.moduleName.bind nonEmpty? = none) {inputs : List Input} {s s' : σ}
    (h : (Root.inputs fs (.tree dir shape)).run s = (.ok inputs, s')) :
    inputs.length = (scriptsIn shape).length ∧
    ∀ p ∈ (scriptsIn shape).zip inputs, NoBackslash p.1 →
      p.2.outputName = joinWith "/" p.1 ∧
      moduleId p.2.unit options ++ ".js" = joinWith "/" p.1 ∧
      ∀ q ∈ (scriptsIn shape).zip inputs, NoBackslash q.1 → q.1 ≠ p.1 →
        moduleId q.2.unit options ≠ moduleId p.2.unit options := by
  have hall := forall₂_of_mapM h
  have hscript : ∀ p ∈ (scriptsIn shape).zip inputs, p.1 ≠ [] ∧ ∀ n ∈ p.1, IsName n := by
    intro p hp
    obtain ⟨hfile, name, hlast, -⟩ := mem_scriptsIn.mp (of_mem_zip hp).1
    refine ⟨?_, hshape.isName hfile⟩
    intro hnil
    rw [hnil] at hlast
    cases hlast
  have hid : ∀ p ∈ (scriptsIn shape).zip inputs, p.2.outputName = joinWith "/" p.1 ∧
      (NoBackslash p.1 → moduleId p.2.unit options ++ ".js" = joinWith "/" p.1) := by
    rintro ⟨names, i⟩ hp
    obtain ⟨s₀, s₁, hread⟩ := forall₂_iff_zip.mp hall |>.2 hp
    obtain ⟨hout, text, hunit⟩ := eq_of_run_readBelow hread
    obtain ⟨-, name, hlast, hjs⟩ := mem_scriptsIn.mp (of_mem_zip hp).1
    refine ⟨hout, fun hback => ?_⟩
    rw [hunit]
    exact moduleId_below (hscript _ hp).2 hlast hjs hback hopt
  refine ⟨hall.length_eq.symm, fun p hp hback => ⟨(hid p hp).1, (hid p hp).2 hback, ?_⟩⟩
  intro q hq hqback hne heq
  -- Paths that are spelled alike go through the same names.
  have hpath : joinWith "/" q.1 = joinWith "/" p.1 := by
    rw [← (hid q hq).2 hqback, ← (hid p hp).2 hback, heq]
  apply hne
  rw [← pieces_joinWith (hscript q hq).1 (hscript q hq).2, hpath,
    pieces_joinWith (hscript p hp).1 (hscript p hp).2]

/-- Two scripts of one name, below a directory whose path is spelled with more than its name. -/
theorem tree_inputs_named_nested :
    let shape : Shape := .dir [("a.js", .file), ("lib", .dir [("a.js", .file)]), ("note.txt", .file)]
    let t : FileTree := .dir [("src", .dir [("a.js", .file "b;".toUTF8),
      ("lib", .dir [("a.js", .file "a;".toUTF8)]), ("note.txt", .file "".toUTF8)])]
    let options : CompileOptions := { moduleName := some "", basePath := some "src/lib" }
    ∃ i j s', (Root.inputs (.ofTree "") (.tree "./src/../src/" shape)).run t = (.ok [i, j], s') ∧
      i.outputName = "a.js" ∧ moduleId i.unit options ++ ".js" = "a.js" ∧
      j.outputName = "lib/a.js" ∧ moduleId j.unit options ++ ".js" = "lib/a.js" ∧
      moduleId j.unit options ≠ moduleId i.unit options := by
  intro shape t options
  have hshape : shape.Proper := by
    simp only [shape, Shape.proper_dir_iff, forall_mem_cons, Shape.Proper.file, not_mem_nil,
      IsEmpty.forall_iff, implies_true, and_true]
    decide
  have hscripts : scriptsIn shape = [["a.js"], ["lib", "a.js"]] := by
    simp only [shape, scriptsIn, Shape.files, Shape.filesOf, Shape.byName]
    rw [mergeSort_of_pairwise (by decide), mergeSort_of_pairwise (by decide)]
    decide
  let dir := "./src/../src/"
  let i : Input := ⟨{ text := "b;", fileName := dir ++ "a.js", basePath := some dir }, "a.js"⟩
  let j : Input := ⟨{ text := "a;", fileName := dir ++ "lib/a.js", basePath := some dir }, "lib/a.js"⟩
  have hrun : ((Root.inputs (.ofTree "") (.tree dir shape)).run t).1 = .ok [i, j] := by
    rw [Root.inputs, hscripts]
    decide +kernel
  have hopt : options.moduleName.bind nonEmpty? = none := rfl
  have h := (tree_inputs_named hshape hopt (Prod.ext hrun rfl)).2
  rw [hscripts] at h
  obtain ⟨hout, hid, hne⟩ := h (["a.js"], i) (by simp) (by decide)
  obtain ⟨hout', hid', -⟩ := h (["lib", "a.js"], j) (by simp) (by decide)
  exact ⟨i, j, _, Prod.ext hrun rfl, hout, hid, hout', hid',
    hne (["lib", "a.js"], j) (by simp) (by decide) (by decide)⟩

end CommandLine

end EcmaLower
