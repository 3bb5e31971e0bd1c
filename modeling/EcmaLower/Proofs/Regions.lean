import EcmaLower.Proofs.Exports

/-!
# Order of a compiled module

A compiled module is a list of *actions* in three regions: its own statements, variables that are bound
to imports, exports that are assigned, loops that copy exports, and dependencies that are only loaded.
Which actions an item asks for, and in which region, is read off the item; a convention decides what
the *objects* are that the code of an action refers to, and leaves a few actions out.

Two facts about layouts follow. The regions of a module are what its items ask for, in source order,
and an item needs to know nothing of the others but the place of its source among all sources. And two
conventions that ask for the same actions differ in their objects alone.

## Main results

* `Layout.transpile_regions` — a module is compiled to the actions of its items, in order.
* `Layout.cjs_of_amd` — the layouts of two conventions correspond.
-/

namespace EcmaLower

open List Build

/-! ## Actions -/

/-- What the code that is generated for an item reads. -/
inductive Operand
  /-- A variable or another expression of the module. -/
  | own (e : Node)
  /-- The dependency of the item: all its exports, as one object. -/
  | dependency
  /-- One export of the dependency of the item. -/
  | imported (name : String)

/-- A statement of a compiled module. -/
inductive Action
  /-- A statement of the module itself. -/
  | own (stmt : Node)
  /-- `var name = value;` -/
  | bind (name : Ident) (value : Operand)
  /-- `exports.key = value;` -/
  | assign (key : String) (value : Operand)
  /-- The loop that copies all exports of the dependency but the default one. -/
  | copy
  /-- The dependency is loaded, and nothing is made of it. -/
  | load

/-- Whether an action only loads the dependency. -/
def Action.isLoad : Action → Bool
  | load => true
  | _ => false

/-- The objects that generated code refers to. -/
structure Objects where
  /-- The object that takes the exports of the module. -/
  exports : Node
  /-- The object that holds the exports of a dependency. -/
  dependency : Node

/-- The objects of a convention, for the dependency that has the given place and the given source. -/
def ModuleType.objects (t : ModuleType) (place : Nat) (source : String) : Objects :=
  match t with
  | amd => ⟨ident "__exports__", ident ("__dependency" ++ toString (place + 1) ++ "__")⟩
  | cjs => ⟨ident "exports", call (ident "require") [strLit source]⟩
  | globals => ⟨ident "__exports__", ident "__exports__"⟩

/-- The code of an operand. -/
def Operand.code (o : Objects) : Operand → Node
  | own e => e
  | dependency => o.dependency
  | imported name => member o.dependency name

/-- The code of an action. -/
def Action.code (o : Objects) : Action → Node
  | own stmt => stmt
  | bind name value =>
    Build.var [Build.declarator (.mk name.span (.binding name.name) []) (some (value.code o))]
  | assign key value => Build.exprStmt (Build.assign (Build.member o.exports key) (value.code o))
  | copy => Build.ownKeysCopy o.dependency o.exports "__key__" (some "default")
  | load => Build.exprStmt o.dependency

/-! ## What an item asks for -/

/-- An import binds a variable. The default export has its own name, or that of the variable if all
modules share one object. -/
def ImportSpecifier.action (t : ModuleType) : ImportSpecifier → Action
  | default name => .bind name (.imported (if t = .globals then name.name else "default"))
  | all name => .bind name .dependency
  | named name imported => .bind name (.imported ((imported.map ExportName.text).getD name.name))

/-- An export of another module is passed on, under its own name if no other is given. -/
def ExportSpecifier.passed : ExportSpecifier → Action
  | named name exported => .assign (exported.getD name).text (.imported name.text)
  | all exported => .assign exported.text .dependency

/-- The key of an export: `default` stands for the key that the convention gives to the value. -/
def Registration.keyOf (r : Registration) (exported : String) (value : Node) : String :=
  if exported = "default" then r.type.defaultExportKey r.moduleId value else exported

/-- A variable is exported, under its own name if no other is given. -/
def ExportSpecifier.assigned (r : Registration) : ExportSpecifier → Action
  | named name none => .assign name.text (.own (ident name.text))
  | named name (some exported) =>
    .assign (r.keyOf exported.text (ident name.text)) (.own (ident name.text))
  | all exported => .assign exported.text (.own (ident exported.text))

namespace ModuleItem

/-- The value of a default export: the variable that is declared, or an expression. -/
def default? : ModuleItem → Option Node
  | exportDefaultFunc (some name) _ | exportDefaultClass (some name) _ => some (ident name.name)
  | exportDefaultFunc none f => some (.mk f.span (.funcExpr none) [f])
  | exportDefaultClass none c => some (.mk c.span (.classExpr none) [c])
  | exportDefaultExpr e => some e
  | _ => none

/-- What an item asks for in the prologue: a variable for each import, an assignment for each export
that is passed on, and a loop for all exports of a module unless they share an object. An import of
nothing loads the module where nothing else would. -/
def prologue (t : ModuleType) : ModuleItem → List Action
  | importDecl [] _ => if t = .cjs then [.load] else []
  | importDecl specs _ => specs.map (ImportSpecifier.action t)
  | exportNamed specs (some _) => specs.map ExportSpecifier.passed
  | exportAll _ => if t = .globals then [] else [.copy]
  | _ => []

/-- What an item asks for in the body: its own statements, and then the default export. -/
def body (r : Registration) (item : ModuleItem) : List Action :=
  item.statements.map .own ++ item.default?.toList.map fun e => .assign (r.keyOf "default" e) (.own e)

/-- What an item asks for in the epilogue: an assignment for each name that an exported declaration
declares, and for each part of a list of exports. -/
def epilogue (r : Registration) : ModuleItem → List Action
  | exportDecl decl => decl.declaredNames.map fun name => .assign name (.own (ident name))
  | exportNamed specs none => specs.map (ExportSpecifier.assigned r)
  | _ => []

end ModuleItem

/-- What an item adds to the regions of a module, given the place of its source among the sources of
the module. -/
def Registration.regionsAt (r : Registration) (place : Nat) (item : ModuleItem) : Regions :=
  let code := map (Action.code (r.type.objects place (item.source?.getD "")))
  ⟨code (item.prologue r.type), code (item.body r), code (item.epilogue r)⟩

/-! ## What an item contributes -/

section Contributions

variable (r : Registration) (place : Nat) (source : String)

lemma objects_exports : (r.type.objects place source).exports = r.type.exportsObject := by
  cases r.type <;> rfl

lemma objects_dependency :
    (r.type.objects place source).dependency = r.type.dependencyObject ⟨place + 1, source⟩ := by
  cases r.type <;> rfl

/-- An assignment is the same for every dependency. -/
lemma code_assign (key : String) (value : Operand) : (Action.assign key value).code (r.type.objects place source) =
      r.assignExport key (value.code (r.type.objects place source)) := by
  rw [Action.code, objects_exports, Registration.assignExport]

/-- An import is bound to what its dependency holds. -/
lemma code_import (spec : ImportSpecifier) : (spec.action r.type).code (r.type.objects place source) =
      var [declarator (.mk (r.importBinding ⟨place + 1, source⟩ spec).1.span
        (.binding (r.importBinding ⟨place + 1, source⟩ spec).1.name) [])
        (some (r.importBinding ⟨place + 1, source⟩ spec).2)] := by
  cases spec with
  | default name => cases ht : r.type <;> simp [ImportSpecifier.action, Action.code, Operand.code,
      Registration.importBinding, ModuleType.defaultImport, ModuleType.objects, ht,
      ModuleType.dependencyObject, Dependency.param, exportsParam]
  | all name
  | named name imported => rw [ImportSpecifier.action, Action.code, Operand.code, objects_dependency]; rfl

/-- An export that is passed on is read from its dependency. -/
lemma code_passed (spec : ExportSpecifier) :
    spec.passed.code (r.type.objects place source) = r.passedExport ⟨place + 1, source⟩ spec := by
  cases spec with
  | named name exported =>
    rw [ExportSpecifier.passed, code_assign, Operand.code, objects_dependency, Registration.passedExport]
    cases exported <;> rfl
  | all exported =>
    rw [ExportSpecifier.passed, code_assign, Operand.code, objects_dependency, Registration.passedExport]

/-- A part of a local list is assigned from its variable. -/
lemma code_assigned {spec : ExportSpecifier} (h : spec.isNamed = true) :
    [(spec.assigned r).code (r.type.objects place source)] = r.localExport spec := by
  cases spec with
  | all exported => cases h
  | named name exported =>
    cases exported with
    | none => rw [ExportSpecifier.assigned, code_assign]; rfl
    | some exported =>
      rw [ExportSpecifier.assigned, code_assign, Registration.keyOf, Registration.localExport]
      dsimp only [Option.map_some, Operand.code]
      split
      · next hdefault => rw [hdefault]; rfl
      · next hother =>
        split
        · next heq => exact absurd (Option.some.inj heq) hother
        · next heq => rw [← Option.some.inj heq]
        · next heq => cases heq

/-- A default export is assigned under the key of its value. -/
lemma code_default (e : Node) :
    (Action.assign (r.keyOf "default" e) (.own e)).code (r.type.objects place source) =
      r.defaultExport e := by
  rw [code_assign, Registration.keyOf, if_pos rfl]
  rfl

/-- **What an item adds** is the code of what it asks for. -/
lemma contribution_eq {item : ModuleItem} (h : item.WellFormed) :
    r.contribution ⟨place + 1, item.source?.getD ""⟩ item = r.regionsAt place item := by
  unfold Registration.regionsAt ModuleItem.body
  extract_lets code
  have hdefault : ∀ e, code [Action.assign (r.keyOf "default" e) (.own e)] = [r.defaultExport e] :=
    fun e => congrArg (fun n => [n]) (code_default r place _ e)
  have hown : ∀ (stmts : List Node) (actions : List Action),
      code (stmts.map .own ++ actions) = stmts ++ code actions := by
    intro stmts actions
    simp [code, Action.code, Function.comp_def]
  cases item with
  | stmt s => rfl
  | importDecl specs source =>
    cases specs with
    | nil =>
      cases ht : r.type with
      | cjs => simp [Registration.contribution, Registration.importRegions, ModuleItem.prologue, code, ht,
          ModuleItem.statements, ModuleItem.default?, ModuleItem.epilogue, Action.code,
          ModuleType.objects, ModuleType.dependencyObject]
      | amd | globals => simp [Registration.contribution, Registration.importRegions, ht, code,
          ModuleItem.prologue, ModuleItem.statements, ModuleItem.default?, ModuleItem.epilogue]
    | cons spec specs =>
      have hspecs : code ((spec :: specs).map (ImportSpecifier.action r.type)) =
          (r.importRegions ⟨place + 1, Units.toText source.value⟩ (spec :: specs)).prologue := by
        rw [Registration.importRegions, if_neg (by simp)]
        simp only [code, map_map]
        exact map_congr_left fun spec _ => code_import r place _ spec
      exact congrArg (fun l => (⟨l, [], []⟩ : Regions)) hspecs.symm
  | exportDecl decl =>
    have hnames : code (decl.declaredNames.map fun name => .assign name (.own (ident name))) =
        (boundNames decl).map fun name => r.assignExport name (ident name) := by
      rw [boundNames_eq_declaredNames h.1 h.2]
      simp only [code, map_map]
      exact map_congr_left fun name _ => code_assign r place _ name _
    exact congrArg (fun l => (⟨[], [decl], l⟩ : Regions)) hnames.symm
  | exportDefaultFunc name f | exportDefaultClass name c =>
    cases name with
    | none => exact congrArg (fun l => (⟨[], l, []⟩ : Regions)) (hdefault _).symm
    | some name =>
      refine congrArg (fun l => (⟨[], l, []⟩ : Regions)) ?_
      exact ((hown [_] _).trans (congrArg _ (hdefault _))).symm
  | exportDefaultExpr e => exact congrArg (fun l => (⟨[], l, []⟩ : Regions)) (hdefault e).symm
  | exportNamed specs source =>
    cases source with
    | none =>
      have hspecs : code (specs.map (ExportSpecifier.assigned r)) = specs.flatMap r.localExport := by
        simp only [code, map_map]
        rw [map_eq_flatMap]
        exact flatMap_congr fun spec hspec => code_assigned r place _ (h spec hspec)
      exact congrArg (fun l => (⟨[], [], l⟩ : Regions)) hspecs.symm
    | some source =>
      have hspecs : code (specs.map ExportSpecifier.passed) =
          specs.map (r.passedExport ⟨place + 1, Units.toText source.value⟩) := by
        simp only [code, map_map]
        exact map_congr_left fun spec _ => code_passed r place _ spec
      exact congrArg (fun l => (⟨l, [], []⟩ : Regions)) hspecs.symm
  | exportAll source =>
    cases ht : r.type with
    | globals => simp [Registration.contribution, Registration.allRegions, ht, code,
        ModuleItem.prologue, ModuleItem.statements, ModuleItem.default?, ModuleItem.epilogue]
    | amd | cjs => simp [Registration.contribution, Registration.allRegions, ht, code, Action.code,
        ModuleItem.prologue, ModuleItem.statements, ModuleItem.default?, ModuleItem.epilogue,
        ModuleType.objects, ModuleType.dependencyObject, ModuleType.exportsObject, Dependency.param,
        exportsParam]

end Contributions

namespace Layout

/-- The place of the source of an item among the sources of a module. -/
def placeOf (items : List ModuleItem) (item : ModuleItem) : Nat :=
  (sourcesOf items).idxOf (item.source?.getD "")

/-- The regions of a module are what its items add, in source order. -/
lemma regions_ofItems (r : Registration) {items : List ModuleItem} (h : ∀ item ∈ items, item.WellFormed) :
    (ofItems r items).regions = ⟨items.flatMap fun item => (r.regionsAt (placeOf items item) item).prologue,
        items.flatMap fun item => (r.regionsAt (placeOf items item) item).body,
        items.flatMap fun item => (r.regionsAt (placeOf items item) item).epilogue⟩ := by
  have hitems : (items.map fun item =>
      r.contribution (dependencyOn (sourcesOf items) (item.source?.getD "")) item) =
        items.map fun item => r.regionsAt (placeOf items item) item :=
    map_congr_left fun item hitem => contribution_eq r (placeOf items item) (h item hitem)
  rw [ofItems_eq]
  simp only [Registration.regionsOf, hitems, flatMap_map]

/-- **The order of a compiled module.** A module that is read is compiled to its prologue, its body and
its epilogue, in this order. Each region is what the items ask for there, one item after the other,
and what an item adds is determined by the item, the name and convention of the module, and the place
of the source of the item among the sources of the module. -/
theorem transpile_regions {text : String} {p : Parsed ModuleItem} (h : parseModule text = .ok p)
    (r : Registration) :
    let adds := fun item => r.regionsAt (placeOf p.body item) item
    let prologue := p.body.flatMap fun item => (adds item).prologue
    let body := p.body.flatMap fun item => (adds item).body
    let epilogue := p.body.flatMap fun item => (adds item).epilogue
    (ofItems r p.body).regions = ⟨prologue, body, epilogue⟩ ∧
      transpile r text = .ok (r.type.wrap r.moduleId (dependenciesOn (sourcesOf p.body))
        (Script.print { body := prologue ++ body ++ epilogue } .latest p.comments)) := by
  intro adds prologue body epilogue
  have hregions : (ofItems r p.body).regions = ⟨prologue, body, epilogue⟩ :=
    regions_ofItems r (wellFormed_of_parseModule h)
  have hdeps : (ofItems r p.body).deps = dependenciesOn (sourcesOf p.body) := by rw [ofItems_eq]
  refine ⟨hregions, ?_⟩
  unfold transpile
  rw [h]
  change Except.ok (r.type.wrap _ (ofItems r p.body).deps
    (Script.print ⟨_, (ofItems r p.body).regions.statements, _⟩ _ _)) = _
  rw [hdeps, hregions]
  rfl

/-- A module that loads one dependency, binds two imports and copies the exports of a third has four
statements before its own. -/
theorem transpile_regions_imports : ∃ p, parseModule
      "export \x7bd\x7d; import 'a'; export default b; import b, \x7bc as d\x7d from 'x'; export * from 'y';" =
        .ok p ∧
    let regions := (ofItems ⟨.cjs, "m"⟩ p.body).regions
    regions.prologue.length = 4 ∧ regions.body.length = 1 ∧ regions.epilogue.length = 1 := by
  obtain ⟨p, hp, hcheck⟩ := exists_of_any_toOption (e := parseModule
      "export \x7bd\x7d; import 'a'; export default b; import b, \x7bc as d\x7d from 'x'; export * from 'y';")
    (P := fun p => (p.body.flatMap (ModuleItem.prologue .cjs)).length == 4 &&
      (p.body.flatMap (ModuleItem.body ⟨.cjs, "m"⟩)).length == 1 &&
      (p.body.flatMap (ModuleItem.epilogue ⟨.cjs, "m"⟩)).length == 1) (by decide +kernel)
  simp only [Bool.and_eq_true, beq_iff_eq, length_flatMap] at hcheck
  refine ⟨p, hp, ?_⟩
  rw [(transpile_regions hp ⟨.cjs, "m"⟩).1]
  simpa [Registration.regionsAt, length_flatMap, and_assoc] using hcheck

/-! ## Conventions that correspond -/

section Conventions

variable (item : ModuleItem)

lemma isLoad_action (t : ModuleType) (spec : ImportSpecifier) : (spec.action t).isLoad = false := by
  cases spec <;> rfl

lemma isLoad_passed (spec : ExportSpecifier) : spec.passed.isLoad = false := by
  cases spec <;> rfl

/-- Where a dependency is a parameter, it needs no loading. -/
lemma prologue_amd : item.prologue .amd = (item.prologue .cjs).filter (!·.isLoad) := by
  cases item with
  | importDecl specs source =>
    cases specs with
    | nil => rfl
    | cons spec specs =>
      have hkeep : ((spec :: specs).map (ImportSpecifier.action .cjs)).filter (!·.isLoad) =
          (spec :: specs).map (ImportSpecifier.action .cjs) :=
        filter_eq_self.mpr (by simp [isLoad_action])
      refine Eq.trans (map_congr_left fun spec _ => ?_) hkeep.symm
      cases spec <;> rfl
  | exportNamed specs source =>
    cases source with
    | none => rfl
    | some source =>
      have hkeep : (specs.map ExportSpecifier.passed).filter (!·.isLoad) =
          specs.map ExportSpecifier.passed := filter_eq_self.mpr (by simp [isLoad_passed])
      exact hkeep.symm
  | _ => rfl

/-- Where modules do not share an object, an export has the name that is written. -/
lemma keyOf_eq {r : Registration} (hr : r.type ≠ .globals) (exported : String) (value : Node) :
    r.keyOf exported value = exported := by
  unfold Registration.keyOf
  split
  · next h =>
    rw [h]
    cases ht : r.type with
    | globals => exact absurd ht hr
    | amd | cjs => rfl
  · rfl

section Unshared

variable (r r' : Registration) (hr : r.type ≠ .globals) (hr' : r'.type ≠ .globals)

include hr hr'

/-- Where modules do not share an object, all ask for the same in the body. -/
lemma body_eq : item.body r = item.body r' := by
  unfold ModuleItem.body
  rw [append_cancel_left_eq]
  refine map_congr_left fun e _ => ?_
  rw [keyOf_eq hr, keyOf_eq hr']

/-- Where modules do not share an object, all ask for the same in the epilogue. -/
lemma epilogue_eq : item.epilogue r = item.epilogue r' := by
  have hassigned : ∀ spec : ExportSpecifier, spec.assigned r = spec.assigned r' := by
    intro spec
    cases spec with
    | all exported => rfl
    | named name exported =>
      cases exported with
      | none => rfl
      | some exported => rw [ExportSpecifier.assigned, ExportSpecifier.assigned, keyOf_eq hr, keyOf_eq hr']
  cases item with
  | exportNamed specs source =>
    cases source with
    | none => exact map_congr_left fun spec _ => hassigned spec
    | some source => rfl
  | _ => rfl

end Unshared

/-- Only an import of nothing is loaded for itself. -/
lemma load_mem_prologue_iff : .load ∈ item.prologue .cjs ↔ ∃ source, item = .importDecl [] source := by
  have hnot : ∀ actions : List Action, (∀ a ∈ actions, a.isLoad = false) → .load ∉ actions :=
    fun _ h hmem => absurd (h _ hmem) (by decide)
  cases item with
  | importDecl specs source =>
    cases specs with
    | nil => exact iff_of_true (mem_singleton_self _) ⟨source, rfl⟩
    | cons spec specs =>
      refine iff_of_false (hnot ((spec :: specs).map (ImportSpecifier.action .cjs)) ?_) (by simp)
      simp [isLoad_action]
  | exportNamed specs source =>
    cases source with
    | none => simp [ModuleItem.prologue]
    | some source =>
      refine iff_of_false (hnot (specs.map ExportSpecifier.passed) ?_) (by simp)
      simp [isLoad_passed]
  | _ => simp [ModuleItem.prologue]

end Conventions

/-- The layout of a module that loads its dependencies itself does not depend on its name. -/
lemma ofItems_cjs (moduleId moduleId' : String) {items : List ModuleItem} (h : ∀ item ∈ items, item.WellFormed) :
    ofItems ⟨.cjs, moduleId⟩ items = ofItems ⟨.cjs, moduleId'⟩ items := by
  have hregions : (ofItems ⟨.cjs, moduleId⟩ items).regions = (ofItems ⟨.cjs, moduleId'⟩ items).regions := by
    rw [regions_ofItems _ h, regions_ofItems _ h]
    simp only [Registration.regionsAt, body_eq _ ⟨.cjs, moduleId⟩ ⟨.cjs, moduleId'⟩ nofun nofun,
      epilogue_eq _ ⟨.cjs, moduleId⟩ ⟨.cjs, moduleId'⟩ nofun nofun]
  rw [ofItems_eq, ofItems_eq] at hregions ⊢
  exact congrArg (Layout.mk _) hregions

/-- **The layouts of two conventions correspond.** A module that is read has the same dependencies in
both, and both take the same actions in the same order. Where one refers to the variables `__exports__`
and `__dependencyN__`, the other one refers to `exports` and calls `require` with the source of
dependency `N`; besides, the other one loads the modules from which nothing is imported where these
imports stand. It does not depend on the name of the module. -/
theorem cjs_of_amd {text : String} {p : Parsed ModuleItem} (h : parseModule text = .ok p)
    (moduleId moduleId' : String) :
    let amd := ofItems ⟨.amd, moduleId⟩ p.body
    let cjs := ofItems ⟨.cjs, moduleId'⟩ p.body
    let number := fun item => placeOf p.body item + 1
    let byName := fun item => Action.code
      ⟨ident "__exports__", ident ("__dependency" ++ toString (number item) ++ "__")⟩
    let byCall := fun item => Action.code
      ⟨ident "exports", call (ident "require") [strLit (item.source?.getD "")]⟩
    let prologue := ModuleItem.prologue .cjs
    let body := ModuleItem.body ⟨.cjs, moduleId'⟩
    let epilogue := ModuleItem.epilogue ⟨.cjs, moduleId'⟩
    amd.deps = cjs.deps ∧
    (∀ item ∈ p.body, ∀ source ∈ item.source?, ⟨number item, source⟩ ∈ amd.deps) ∧
    amd.regions =
      ⟨p.body.flatMap fun item => ((prologue item).filter (!·.isLoad)).map (byName item),
        p.body.flatMap fun item => (body item).map (byName item),
        p.body.flatMap fun item => (epilogue item).map (byName item)⟩ ∧
    cjs.regions =
      ⟨p.body.flatMap fun item => (prologue item).map (byCall item),
        p.body.flatMap fun item => (body item).map (byCall item),
        p.body.flatMap fun item => (epilogue item).map (byCall item)⟩ ∧
    (∀ item, .load ∈ prologue item ↔ ∃ source, item = .importDecl [] source) ∧
    transpile ⟨.cjs, moduleId⟩ text = transpile ⟨.cjs, moduleId'⟩ text := by
  intro amd cjs number byName byCall prologue body epilogue
  have hitems := wellFormed_of_parseModule h
  refine ⟨by simp only [amd, cjs, ofItems_eq], ?_, ?_, regions_ofItems _ hitems, load_mem_prologue_iff, ?_⟩
  · intro item hitem source hsource
    rw [Option.mem_def] at hsource
    simp only [amd, ofItems_eq, number, placeOf, hsource]
    exact dependencyOn_mem (mem_sourcesOf.mpr ⟨item, hitem, hsource⟩)
  · rw [regions_ofItems _ hitems]
    simp only [Registration.regionsAt, prologue_amd,
      body_eq _ ⟨.amd, moduleId⟩ ⟨.cjs, moduleId'⟩ nofun nofun,
      epilogue_eq _ ⟨.amd, moduleId⟩ ⟨.cjs, moduleId'⟩ nofun nofun]
    rfl
  · unfold transpile
    rw [h]
    change Except.ok (ModuleType.wrap .cjs _ (ofItems ⟨.cjs, moduleId⟩ p.body).deps
      (Script.print ⟨_, (ofItems ⟨.cjs, moduleId⟩ p.body).regions.statements, _⟩ _ _)) = _
    rw [ofItems_cjs moduleId moduleId' hitems]
    rfl

/-- A module that imports nothing and exports a variable by the name of the object that takes the
exports: only the second convention has a prologue, and its name does not matter there. -/
theorem cjs_of_amd_load : ∃ p,
    parseModule "import 'a'; export \x7b__exports__\x7d; var __exports__ = 1;" = .ok p ∧
    (ofItems ⟨.amd, "m"⟩ p.body).regions.prologue.length = 0 ∧
    (ofItems ⟨.cjs, "n"⟩ p.body).regions.prologue.length = 1 ∧
    transpile ⟨.cjs, "m"⟩ "import 'a'; export \x7b__exports__\x7d; var __exports__ = 1;" =
      transpile ⟨.cjs, "n"⟩ "import 'a'; export \x7b__exports__\x7d; var __exports__ = 1;" := by
  obtain ⟨p, hp, hcheck⟩ := exists_of_any_toOption
    (e := parseModule "import 'a'; export \x7b__exports__\x7d; var __exports__ = 1;")
    (P := fun p => (p.body.flatMap fun item => (item.prologue .cjs).filter (!·.isLoad)).length == 0 &&
      (p.body.flatMap (ModuleItem.prologue .cjs)).length == 1) (by decide +kernel)
  simp only [Bool.and_eq_true, beq_iff_eq, length_flatMap] at hcheck
  obtain ⟨-, -, hamd, hcjs, -, htext⟩ := cjs_of_amd hp "m" "n"
  refine ⟨p, hp, ?_, ?_, htext⟩
  · rw [hamd]
    simpa [length_flatMap] using hcheck.1
  · rw [hcjs]
    simpa [length_flatMap] using hcheck.2

end Layout

end EcmaLower
