import EcmaLower.CommandLine.Run
import EcmaLower.Proofs.Files.Access
import Mathlib.Data.List.Forall2

/-!
# Options and inputs of a run

Before it writes anything, a run loads its options and reads its inputs. It finds them all, or it does
not start; either way the files are as before.
-/

namespace EcmaLower

open List

variable {σ ε α β : Type}

lemma exists_of_forall₂ {R : α → β → Prop} {l : List α} {bs : List β} (h : Forall₂ R l bs) {a : α}
    (ha : a ∈ l) : ∃ b ∈ bs, R a b := by
  induction h with
  | nil => cases ha
  | @cons a' b l bs hab _ ih =>
    rcases mem_cons.mp ha with rfl | ha
    · exact ⟨b, by simp, hab⟩
    · obtain ⟨c, hc, hR⟩ := ih ha
      exact ⟨c, by simp [hc], hR⟩

/-! ## Steps that can fail -/

section Steps

lemma run_bind (x : ExceptT ε (StateM σ) α) (f : α → ExceptT ε (StateM σ) β) (s : σ) :
    (x >>= f).run s = match x.run s with
      | (.ok a, s₁) => (f a).run s₁
      | (.error e, s₁) => (.error e, s₁) := by
  change (ExceptT.bindCont f (x.run s).1) (x.run s).2 = _
  rcases x.run s with ⟨_ | _, _⟩ <;> rfl

variable {x : ExceptT ε (StateM σ) α} {f : α → ExceptT ε (StateM σ) β} {s s₁ : σ}

lemma run_bind_of_ok {a : α} (h : x.run s = (.ok a, s₁)) : (x >>= f).run s = (f a).run s₁ := by
  rw [run_bind, h]

lemma run_liftM {r : StateM σ α} {a : α} (h : r s = (a, s₁)) :
    (liftM r : ExceptT ε (StateM σ) α).run s = (.ok a, s₁) := by
  change ((Except.ok (r s).1 : Except ε α), (r s).2) = _
  rw [h]

lemma bind_of_eq {x : StateM σ α} {f : α → StateM σ β} {a : α} {s s₁ : σ} (h : x s = (a, s₁)) :
    (x >>= f) s = f a s₁ := by
  change f (x s).1 (x s).2 = _
  rw [h]

lemma run_bind_of_error {e : ε} (h : x.run s = (.error e, s₁)) : (x >>= f).run s = (.error e, s₁) := by
  rw [run_bind, h]

lemma exists_of_run_bind {s' : σ} {b : β} (h : (x >>= f).run s = (.ok b, s')) :
    ∃ a s₁, x.run s = (.ok a, s₁) ∧ (f a).run s₁ = (.ok b, s') := by
  rw [run_bind] at h
  rcases hx : x.run s with ⟨e | a, s₁⟩
  · rw [hx] at h
    cases h
  · rw [hx] at h
    exact ⟨a, s₁, rfl, h⟩

/-- If all elements of a list are processed, each one is. -/
lemma forall₂_of_mapM {l : List α} {bs : List β} {s' : σ} (h : (l.mapM f).run s = (.ok bs, s')) :
    Forall₂ (fun a b => ∃ s₀ s₁, (f a).run s₀ = (.ok b, s₁)) l bs := by
  induction l generalizing bs s with
  | nil =>
    rw [mapM_nil] at h
    cases h
    exact .nil
  | cons a l ih =>
    rw [mapM_cons] at h
    obtain ⟨b, s₁, hb, h⟩ := exists_of_run_bind h
    obtain ⟨bs', s₂, hbs, ⟨⟩⟩ := exists_of_run_bind h
    exact .cons ⟨s, s₁, hb⟩ (ih hbs)

/-- `Yields x s P Q`: the step `x` leaves the state `s` as it is, and either it gives a value with the
property `P`, or it fails and `Q` holds. -/
inductive Yields (x : ExceptT ε (StateM σ) α) (s : σ) (P : α → Prop) (Q : Prop) : Prop
  | ok {a : α} : x.run s = (.ok a, s) → P a → Yields x s P Q
  | error {e : ε} : x.run s = (.error e, s) → Q → Yields x s P Q

namespace Yields

variable {P P' : α → Prop} {Q Q' : Prop}

lemma pure {a : α} (h : P a) : Yields (Pure.pure a : ExceptT ε (StateM σ) α) s P Q := .ok rfl h

lemma throw {e : ε} (h : Q) : Yields (MonadExcept.throw e : ExceptT ε (StateM σ) α) s P Q := .error rfl h

lemma mono (h : Yields x s P Q) (hP : ∀ a, P a → P' a) (hQ : Q → Q') : Yields x s P' Q' := by
  cases h with
  | ok hx ha => exact .ok hx (hP _ ha)
  | error hx hq => exact .error hx (hQ hq)

lemma bind {R : β → Prop} (h : Yields x s P Q) (hf : ∀ a, P a → Yields (f a) s R Q) : Yields (x >>= f) s R Q := by
  cases h with
  | error hx hq => exact .error (run_bind_of_error hx) hq
  | ok hx ha =>
    cases hf _ ha with
    | ok hb hR => exact .ok ((run_bind_of_ok hx).trans hb) hR
    | error hb hq => exact .error ((run_bind_of_ok hx).trans hb) hq

/-- A step for each of the results of an earlier one. -/
lemma mapM_of_forall₂ {γ : Type} {S : γ → α → Prop} {R : γ → β → Prop} {cs : List γ} {l : List α}
    (hS : Forall₂ S cs l) (h : ∀ c ∈ cs, ∀ a, S c a → Yields (f a) s (R c) Q) :
    Yields (l.mapM f) s (Forall₂ R cs) Q := by
  induction hS with
  | nil => exact .pure .nil
  | @cons c a cs l hca _ ih =>
    rw [mapM_cons]
    refine (h c (by simp) a hca).bind fun b hb => ?_
    exact (ih fun c hc => h c (by simp [hc])).bind fun bs hbs => .pure (.cons hb hbs)

lemma mapM {R : α → β → Prop} {l : List α} (h : ∀ a ∈ l, Yields (f a) s (R a) Q) :
    Yields (l.mapM f) s (Forall₂ R l) Q :=
  mapM_of_forall₂ (S := (· = ·)) (forall₂_refl l) fun a ha _ hab => hab ▸ h a ha

end Yields

end Steps

namespace CommandLine

variable (fs : FileAccess (StateM σ)) (s : σ) (args : Arguments)

/-! ## Options and inputs of a run -/

/-- The options before those that the arguments give: what the configuration file says, or the
defaults. -/
def BaseOptions (o : CompileOptions) : Prop :=
  match args.config with
  | none => o = {}
  | some path => ∃ text, fs.textAt s path = .ok text ∧ Config.read text = .ok o

/-- The options of a run: an argument takes precedence over the configuration. -/
def IsOptions (o : CompileOptions) : Prop :=
  ∃ base, BaseOptions fs s args base ∧ (match args.moduleType with
      | none => o.moduleType = base.moduleType
      | some name => ModuleType.ofName? name = some o.moduleType) ∧
    o.moduleName = args.moduleName.or base.moduleName ∧ o.basePath = base.basePath

/-- The input of a file. -/
def IsFileInput (path : String) (i : Input) : Prop :=
  ∃ text, fs.textAt s path = .ok text ∧ Path.fileName? path = some i.outputName ∧ i.unit = { text, fileName := path }

/-- The input of a file below a directory. -/
def IsTreeInput (dir : String) (names : List String) (i : Input) : Prop :=
  ∃ text, fs.textAt s (Path.join dir (joinWith "/" names)) = .ok text ∧
    i.outputName = joinWith "/" names ∧
    i.unit = { text, fileName := Path.join dir (joinWith "/" names), basePath := some dir }

/-- The inputs at a path: a file, or the scripts below a directory. -/
def AreInputsAt : (tree : Bool) → String → List Input → Prop
  | true, path, inputs => ∃ shape, fs.shapeAt s path = some shape ∧
    Forall₂ (IsTreeInput fs s path) (scriptsIn shape) inputs
  | false, path, inputs => ∃ i, IsFileInput fs s path i ∧ inputs = [i]

/-- The inputs of a run: those at the paths, in order, or standard input if there is no path. -/
def AreInputs (inputs : List Input) : Prop :=
  match args.paths with
  | [] => ∃ text, fs.inputAt s = .ok text ∧
    inputs = [{ unit := .stdin text, outputName := "stdin.js" }]
  | paths => ∃ groups, Forall₂ (AreInputsAt fs s args.tree) paths groups ∧ inputs = groups.flatten

/-- Why a run does not start. -/
inductive Unready : Prop
  /-- The configuration cannot be loaded. -/
  | config : (∀ o, ¬BaseOptions fs s args o) → Unready
  /-- There is no such module type. -/
  | moduleType {name : String} : args.moduleType = some name → ModuleType.ofName? name = none → Unready
  /-- A path of a tree is not a directory. -/
  | root {path : String} : args.tree = true → path ∈ args.paths → fs.shapeAt s path = none → Unready
  /-- Standard input cannot be read. -/
  | input {e : FileError} : args.paths = [] → fs.inputAt s = .error e → Unready
  /-- A file cannot be read. -/
  | file {path : String} : args.tree = false → path ∈ args.paths → (∀ i, ¬IsFileInput fs s path i) → Unready
  /-- A file of a tree cannot be read. -/
  | below {path : String} {shape : Shape} {names : List String} : args.tree = true →
    path ∈ args.paths → fs.shapeAt s path = some shape → names ∈ scriptsIn shape →
    (∀ i, ¬IsTreeInput fs s path names i) → Unready

variable {fs s args}

lemma mem_scriptsIn {shape : Shape} {names : List String} : names ∈ scriptsIn shape ↔
    names ∈ shape.files ∧ ∃ name, names.getLast? = some name ∧ isScript name = true := by
  rw [scriptsIn, mem_filter]
  cases names.getLast? <;> simp

lemma run_orFail_ok {r : StateM σ (Except FileError α)} {a : α} {s₁ : σ} (h : r s = (.ok a, s₁))
    (message : String) : (orFail message r).run s = (.ok a, s₁) := by
  unfold orFail
  rw [run_bind_of_ok (run_liftM h)]
  rfl

lemma run_orFail_error {r : StateM σ (Except FileError α)} {e : FileError} {s₁ : σ}
    (h : r s = (.error e, s₁)) (message : String) :
    (orFail message r).run s = (.error { message, causes := [e.message] }, s₁) := by
  unfold orFail
  rw [run_bind_of_ok (run_liftM h)]
  rfl

lemma yields_orFail {r : StateM σ (Except FileError α)} {e : Except FileError α} (h : r s = (e, s))
    (message : String) : Yields (orFail message r) s (e = .ok ·) (∃ err, e = .error err) := by
  cases e with
  | ok a => exact .ok (run_orFail_ok h message) rfl
  | error err => exact .error (run_orFail_error h message) ⟨err, rfl⟩

variable (hfs : fs.ReadsOnly)

include hfs

lemma yields_readFile (path : String) :
    Yields (readFile fs path) s (IsFileInput fs s path) (∀ i, ¬IsFileInput fs s path i) := by
  unfold readFile
  refine ((yields_orFail (hfs.readText_eq path) _).mono (fun _ h => h) ?_).bind fun text htext => ?_
  · rintro ⟨err, herr⟩ i ⟨text, htext, -⟩
    cases herr.symm.trans htext
  · cases hname : Path.fileName? path with
    | some name => exact .pure ⟨text, htext, hname, rfl⟩
    | none =>
      refine .throw ?_
      rintro i ⟨_, -, hi, -⟩
      cases hname.symm.trans hi

lemma yields_readBelow (dir : String) (names : List String) :
    Yields (readBelow fs dir names) s (IsTreeInput fs s dir names) (∀ i, ¬IsTreeInput fs s dir names i) := by
  unfold readBelow
  refine ((yields_orFail (hfs.readText_eq _) _).mono (fun _ h => h) ?_).bind fun text htext => ?_
  · rintro ⟨err, herr⟩ i ⟨text, htext, -⟩
    cases herr.symm.trans htext
  · exact .pure ⟨text, htext, rfl, rfl⟩

/-- What a path stands for. -/
def StandsFor (fs : FileAccess (StateM σ)) (s : σ) : (tree : Bool) → String → Root → Prop
  | true, path, root => ∃ shape, fs.shapeAt s path = some shape ∧ root = .tree path shape
  | false, path, root => root = .file path

lemma yields_ofPath {path : String} (hpath : path ∈ args.paths) :
    Yields (Root.ofPath fs args.tree path) s (StandsFor fs s args.tree path) (Unready fs s args) := by
  unfold Root.ofPath
  cases htree : args.tree with
  | false => exact .pure rfl
  | true =>
    refine Yields.bind (P := (fs.shapeAt s path = ·)) (.ok (run_liftM (hfs.directory_eq path)) rfl) ?_
    rintro _ rfl
    cases hshape : fs.shapeAt s path with
    | none => exact .throw (.root htree hpath hshape)
    | some shape => exact .pure ⟨shape, hshape, rfl⟩

lemma yields_inputs {path : String} {root : Root} (hpath : path ∈ args.paths)
    (hroot : StandsFor fs s args.tree path root) :
    Yields (root.inputs fs) s (AreInputsAt fs s args.tree path) (Unready fs s args) := by
  cases htree : args.tree with
  | true =>
    rw [htree] at hroot
    obtain ⟨shape, hshape, rfl⟩ := hroot
    refine (Yields.mapM fun names hnames => ?_).mono (fun inputs h => ⟨shape, hshape, h⟩) id
    exact (yields_readBelow hfs path names).mono (fun _ h => h) (.below htree hpath hshape hnames)
  | false =>
    rw [htree] at hroot
    obtain rfl : root = .file path := hroot
    refine ((yields_readFile hfs path).mono (fun _ h => h) ?_).bind fun i hi => .pure ⟨i, hi, rfl⟩
    exact .file htree hpath

lemma yields_readInput (hpaths : args.paths = []) :
    Yields (readInput fs) s (fun i => AreInputs fs s args [i]) (Unready fs s args) := by
  unfold readInput
  refine ((yields_orFail hfs.readInput_eq _).mono (fun _ h => h) ?_).bind fun text htext => .pure ?_
  · rintro ⟨err, herr⟩
    exact .input hpaths herr
  · rw [AreInputs, hpaths]
    exact ⟨text, htext, rfl⟩

lemma exists_loadOptions (path : String) : ∃ r, loadOptions fs path s = (r, s) ∧
    ∀ o, r = .ok o ↔ ∃ text, fs.textAt s path = .ok text ∧ Config.read text = .ok o := by
  unfold loadOptions
  rw [bind_of_eq (hfs.readText_eq path)]
  cases fs.textAt s path with
  | error e => exact ⟨_, rfl, by simp⟩
  | ok text =>
    refine ⟨(Config.read text).mapError (.invalid path), rfl, fun o => ?_⟩
    cases hread : Config.read text <;> simp [Except.mapError, hread]

/-- **The options of a run are found, or it does not start.** -/
lemma yields_optionsOf : Yields (optionsOf fs args) s (IsOptions fs s args) (Unready fs s args) := by
  unfold optionsOf
  refine Yields.bind (P := fun r => ∀ o, r = .ok o ↔ BaseOptions fs s args o) ?_ fun r hbase => ?_
  · unfold BaseOptions
    cases args.config with
    | none => exact .ok rfl fun o => by rw [Except.ok.injEq, eq_comm]
    | some path =>
      obtain ⟨r, hrun, hr⟩ := exists_loadOptions hfs path
      exact .ok (run_liftM hrun) hr
  · cases r with
    | error e => exact .throw (.config fun o ho => nomatch (hbase o).mpr ho)
    | ok base =>
      have hb : BaseOptions fs s args base := (hbase base).mp rfl
      unfold overrideOptions
      cases htype : args.moduleType with
      | none => exact .pure ⟨base, hb, by rw [htype], rfl, rfl⟩
      | some name =>
        cases hname : ModuleType.ofName? name with
        | none =>
          simp only [hname]
          exact .throw (.moduleType htype hname)
        | some t =>
          simp only [hname]
          exact .pure ⟨base, hb, by rw [htype]; exact hname, rfl, rfl⟩

/-- **The options and the inputs of a run are found, or it does not start.** -/
theorem yields_prepare (hwatch : args.watch = false) :
    Yields (prepare fs args) s (fun r => IsOptions fs s args r.1 ∧ AreInputs fs s args r.2)
      (Unready fs s args) := by
  unfold prepare
  refine (yields_optionsOf hfs).bind fun options hopt => ?_
  refine (Yields.mapM fun path hpath => yields_ofPath hfs hpath).bind fun roots hroots => ?_
  rw [hwatch]
  cases hpaths : args.paths with
  | nil =>
    rw [hpaths] at hroots
    cases hroots
    exact (yields_readInput hfs hpaths).bind fun i hi => .pure ⟨hopt, hi⟩
  | cons path paths =>
    have hne : roots.isEmpty = false := by
      rw [hpaths] at hroots
      cases hroots
      rfl
    rw [hne]
    refine (Yields.mapM_of_forall₂ hroots fun path hpath root hroot =>
      yields_inputs hfs hpath hroot).bind fun groups hgroups => .pure ⟨hopt, ?_⟩
    rw [hpaths] at hgroups
    rw [AreInputs, hpaths]
    exact ⟨groups, hgroups, rfl⟩

omit hfs in
/-- A run whose options and inputs are found is ready. -/
lemma not_unready {options : CompileOptions} {inputs : List Input} (hopt : IsOptions fs s args options)
    (hin : AreInputs fs s args inputs) : ¬Unready fs s args := by
  obtain ⟨base, hbase, htype, -⟩ := hopt
  have hpath : ∀ path ∈ args.paths, ∃ group, AreInputsAt fs s args.tree path group := by
    intro path hpath
    unfold AreInputs at hin
    cases hpaths : args.paths with
    | nil =>
      rw [hpaths] at hpath
      cases hpath
    | cons p ps =>
      rw [hpaths] at hin hpath
      obtain ⟨groups, hall, -⟩ := hin
      obtain ⟨group, -, hgroup⟩ := exists_of_forall₂ hall hpath
      exact ⟨group, hgroup⟩
  intro h
  cases h with
  | config hnone => exact hnone base hbase
  | moduleType hname hnone =>
    rw [hname] at htype
    cases hnone.symm.trans htype
  | root htree hmem hnone =>
    obtain ⟨group, hgroup⟩ := hpath _ hmem
    rw [htree] at hgroup
    obtain ⟨shape, hshape, -⟩ := hgroup
    cases hnone.symm.trans hshape
  | input hpaths herr =>
    rw [AreInputs, hpaths] at hin
    obtain ⟨text, htext, -⟩ := hin
    cases herr.symm.trans htext
  | file htree hmem hnone =>
    obtain ⟨group, hgroup⟩ := hpath _ hmem
    rw [htree] at hgroup
    obtain ⟨i, hi, -⟩ := hgroup
    exact hnone i hi
  | below htree hmem hshape hnames hnone =>
    obtain ⟨group, hgroup⟩ := hpath _ hmem
    rw [htree] at hgroup
    obtain ⟨shape, hshape', hall⟩ := hgroup
    obtain rfl := Option.some_inj.mp (hshape.symm.trans hshape')
    obtain ⟨i, -, hi⟩ := exists_of_forall₂ hall hnames
    exact hnone i hi

end CommandLine

end EcmaLower
