import EcmaLower.Proofs.Regions

/-!
# Spellings of default imports and exports

`import X from "m"` and `import { default as X } from "m"` mean the same, and so do `export default X` and
`export { X as default }`. This module compares what they are compiled to. The two exports are assigned
under one key in every convention. The two imports read one key where each module has an object of its own.
On a shared object they do not: there a default export is stored under the name of its variable, the first
spelling looks it up under the name of the variable that it binds, and the second one looks up the key
`default`.

## Main results

* `Layout.ofItems_replace` — the layouts of two modules that differ in one item.
* `Layout.default_spellings_iff` — when two spellings are compiled alike, and who reads the key `default`.
-/

namespace EcmaLower

open Node List Build Option

variable {name : ExportName} {x : Ident}

/-! ## Keys that are read -/

/-- The key of a property access. -/
def Node.accessKey? : Node → Option String
  | .mk _ .member [_, key] => key.keyText?
  | _ => none

/-- The variable that an import binds, and the key that it reads for it: `var x = object.key;`. -/
def Node.importRead? : Node → Option (String × String)
  | .mk _ (.varDecl .var) [.mk _ .declarator [.mk _ (.binding x) [], value]] => value.accessKey?.map (x, ·)
  | _ => none

/-- The key that an export which is passed on reads: `exports.name = object.key;`. -/
def Node.passedRead? : Node → Option String
  | .mk _ .exprStmt [.mk _ (.assign .plain) [_, value]] => value.accessKey?
  | _ => none

/-- The key that a statement of a prologue reads. -/
def Node.readKey? (stmt : Node) : Option String := (stmt.importRead?.map (·.2)).or stmt.passedRead?

/-- The name that a part of an import asks for. A default import asks for the name of its variable if
modules share an object. -/
def ImportSpecifier.readName? (t : ModuleType) : ImportSpecifier → Option String
  | default name => some (if t = .globals then name.name else "default")
  | named name imported => some ((imported.map ExportName.text).getD name.name)
  | all _ => none

/-- The name that an export which is passed on asks for. -/
def ExportSpecifier.readName? : ExportSpecifier → Option String
  | named name _ => some name.text
  | all _ => none

/-- The names that an item asks other modules for. -/
def ModuleItem.readNames (t : ModuleType) : ModuleItem → List String
  | importDecl specs _ => specs.filterMap (ImportSpecifier.readName? t)
  | exportNamed specs (some _) => specs.filterMap ExportSpecifier.readName?
  | _ => []

lemma accessKey?_member (obj : Node) (name : String) : (member obj name).accessKey? = some name := by
  rw [member]
  split
  · rfl
  · simp [index, access, computedKey, make, strLit, unitsLit, accessKey?, keyText?]

/-! ## One item for another -/

lemma Regions.append_append (A c B : Regions) : A ++ c ++ B =
    ⟨A.prologue ++ c.prologue ++ B.prologue, A.body ++ c.body ++ B.body, A.epilogue ++ c.epilogue ++ B.epilogue⟩ :=
  rfl

namespace Layout

variable {r : Registration}

lemma eq_of_deps_of_regions {l l' : Layout} (hdeps : l.deps = l'.deps) (hregions : l.regions = l'.regions) :
    l = l' := by
  cases l
  cases l'
  cases hdeps
  cases hregions
  rfl

lemma regionsOf_append (sources : List String) (items more : List ModuleItem) :
    r.regionsOf sources (items ++ more) = r.regionsOf sources items ++ r.regionsOf sources more := by
  simp only [Registration.regionsOf, map_append, flatMap_append]
  rfl

lemma regionsOf_singleton (sources : List String) (item : ModuleItem) : r.regionsOf sources [item] =
    r.contribution (dependencyOn sources (item.source?.getD "")) item := by
  simp [Registration.regionsOf]

lemma sourcesOf_replace {item item' : ModuleItem} (h : item'.source? = item.source?)
    (pre post : List ModuleItem) : sourcesOf (pre ++ item' :: post) = sourcesOf (pre ++ item :: post) := by
  simp only [sourcesOf, filterMap_append, filterMap_cons, h]

/-- **The layouts of two modules that differ in one item**, where both items name the same source: only
what the two contribute differs. -/
lemma ofItems_replace (item item' : ModuleItem) (h : item'.source? = item.source?)
    (pre post : List ModuleItem) : ∃ d A B,
      (ofItems r (pre ++ item :: post)).regions = A ++ r.contribution d item ++ B ∧
      (ofItems r (pre ++ item' :: post)).regions = A ++ r.contribution d item' ++ B ∧
      (ofItems r (pre ++ item' :: post)).deps = (ofItems r (pre ++ item :: post)).deps := by
  let sources := sourcesOf (pre ++ item :: post)
  have hregions : ∀ it : ModuleItem, r.regionsOf sources (pre ++ it :: post) = r.regionsOf sources pre ++
      r.contribution (dependencyOn sources (it.source?.getD "")) it ++ r.regionsOf sources post := by
    intro it
    rw [append_cons, regionsOf_append, regionsOf_append, regionsOf_singleton]
  refine ⟨dependencyOn sources (item.source?.getD ""), r.regionsOf sources pre, r.regionsOf sources post,
    ?_, ?_, ?_⟩
  · rw [ofItems_eq]
    exact hregions item
  · rw [ofItems_eq, sourcesOf_replace h]
    exact h ▸ hregions item'
  · rw [ofItems_eq, ofItems_eq, sourcesOf_replace h]

/-! ## What is read -/

lemma readKey?_var (s : Span) (x : String) (value : Node) :
    (var [declarator (.mk s (.binding x) []) (some value)]).readKey? = value.accessKey? := by
  change ((value.accessKey?.map (x, ·)).map (·.2)).or none = _
  simp [Function.comp_def]

lemma readKey?_assignExport (r : Registration) (key : String) (value : Node) :
    (r.assignExport key value).readKey? = value.accessKey? :=
  rfl

/-- A dependency itself is no access to a property. -/
lemma accessKey?_dependencyObject (t : ModuleType) (d : Dependency) : (t.dependencyObject d).accessKey? = none := by
  cases t <;> rfl

/-- What an import reads. -/
lemma accessKey?_importBinding (d : Dependency) (spec : ImportSpecifier) :
    (r.importBinding d spec).2.accessKey? = spec.readName? r.type := by
  cases spec with
  | default name => cases ht : r.type <;> simp [Registration.importBinding, ModuleType.defaultImport,
      ImportSpecifier.readName?, ht, accessKey?_member]
  | named name imported => exact accessKey?_member _ _
  | all name => exact accessKey?_dependencyObject _ _

/-- What an export that is passed on reads. -/
lemma readKey?_passedExport (d : Dependency) (spec : ExportSpecifier) :
    (r.passedExport d spec).readKey? = spec.readName? := by
  cases spec with
  | named name exported =>
    rw [Registration.passedExport, readKey?_assignExport, accessKey?_member]
    rfl
  | all exported =>
    rw [Registration.passedExport, readKey?_assignExport, accessKey?_dependencyObject]
    rfl

lemma filterMap_readKey?_contribution (d : Dependency) (item : ModuleItem) :
    (r.contribution d item).prologue.filterMap readKey? = item.readNames r.type := by
  cases item with
  | importDecl specs source =>
    rw [Registration.contribution, Registration.importRegions]
    cases specs with
    | nil => cases r.type <;> rfl
    | cons spec specs =>
      rw [if_neg (by simp), ModuleItem.readNames]
      simp only [filterMap_map, Function.comp_def, readKey?_var, accessKey?_importBinding]
  | exportNamed specs source =>
    cases source with
    | none => rfl
    | some source =>
      rw [Registration.contribution, ModuleItem.readNames]
      simp only [filterMap_map, Function.comp_def, readKey?_passedExport]
  | exportAll source =>
    rw [Registration.contribution, Registration.allRegions]
    cases r.type <;> rfl
  | exportDefaultFunc name f | exportDefaultClass name c => cases name <;> rfl
  | _ => rfl

/-- **The keys that a module reads** off its dependencies are the names that its items ask for. -/
lemma filterMap_readKey?_prologue (items : List ModuleItem) :
    (ofItems r items).regions.prologue.filterMap readKey? = items.flatMap (ModuleItem.readNames r.type) := by
  rw [ofItems_eq]
  simp only [Registration.regionsOf, flatMap_map, filterMap_flatMap, filterMap_readKey?_contribution]

/-! ## Spellings -/

/-- The statement that binds the variable of an import. -/
def importStmt (r : Registration) (d : Dependency) (spec : ImportSpecifier) : Node :=
  var [declarator (.mk (r.importBinding d spec).1.span (.binding (r.importBinding d spec).1.name) [])
    (some (r.importBinding d spec).2)]

lemma importRead?_importStmt (d : Dependency) (spec : ImportSpecifier) :
    (importStmt r d spec).importRead? = (spec.readName? r.type).map ((r.importBinding d spec).1.name, ·) :=
  congrArg (Option.map _) (accessKey?_importBinding d spec)

/-- What an import contributes, with the statement of one of its parts. -/
lemma append_contribution_import (A B : Regions) (d : Dependency) (before : List ImportSpecifier)
    (spec : ImportSpecifier) (after : List ImportSpecifier) (source : StrLit) :
    A ++ r.contribution d (.importDecl (before ++ spec :: after) source) ++ B =
      ⟨(A.prologue ++ before.map (importStmt r d)) ++ importStmt r d spec ::
        (after.map (importStmt r d) ++ B.prologue), A.body ++ B.body, A.epilogue ++ B.epilogue⟩ := by
  have hprologue : (r.importRegions d (before ++ spec :: after)) =
      { prologue := before.map (importStmt r d) ++ importStmt r d spec :: after.map (importStmt r d) } := by
    rw [Registration.importRegions, if_neg (by simp), ← map_cons, ← map_append]
    rfl
  rw [Registration.contribution, hprologue, Regions.append_append]
  simp

/-- Where modules do not share an object, a default import is an import of the name `default`. -/
lemma importStmt_default {d : Dependency} (hname : name.text = "default")
    (h : r.type = .globals → x.name = "default") :
    importStmt r d (.named x (some name)) = importStmt r d (.default x) := by
  unfold importStmt Registration.importBinding ModuleType.defaultImport ModuleType.dependencyObject
  cases ht : r.type <;> simp [hname, ht, h]

/-- The key of the default export of a variable. -/
lemma defaultExportKey_ident {x : String} {value : Node} (h : value.tag = .ident x) :
    r.type.defaultExportKey r.moduleId value = if r.type = .globals then x else "default" := by
  unfold ModuleType.defaultExportKey
  cases r.type <;> simp [h]

/-- The default export of a variable has the key that the variable has in a list under the name
`default`. -/
lemma localExport_default (hname : name.text = "default") : r.localExport (.named (.word x) (some name)) =
      [r.assignExport (if r.type = .globals then x.name else "default") (ident x.name)] := by
  rw [Registration.localExport, map_some, hname]
  exact congrArg (fun key => [r.assignExport key (ident x.name)]) (defaultExportKey_ident rfl)

/-- **Two spellings of an import and of an export.** Where one import is spelled in two ways, the layouts
differ in the statement of this import at most: it binds the variable to what it reads, which is the key
`default` in both cases, or the name of the variable if modules share an object and the import is not in a
list. So the spellings are compiled alike exactly if modules do not share an object or the variable is itself
called `default`. Where one export is spelled in two ways, the export is assigned under one key, at its place
or at the end.

Where modules share an object, the key `default` is read exactly if an item asks for this name, and it is
written by a default export exactly if the variable or, for another value, the module is called so. -/
theorem default_spellings_iff (r : Registration) (pre post : List ModuleItem) {x : Ident} {name : ExportName}
    (hname : name.text = "default") :
    (∀ source before after, ∃ P₁ P₂ stmt stmt' b e,
      let plain := ofItems r (pre ++ .importDecl (before ++ .default x :: after) source :: post)
      let listed := ofItems r (pre ++ .importDecl (before ++ .named x (some name) :: after) source :: post)
      listed.deps = plain.deps ∧
      plain.regions = ⟨P₁ ++ stmt :: P₂, b, e⟩ ∧ listed.regions = ⟨P₁ ++ stmt' :: P₂, b, e⟩ ∧
      stmt.importRead? = some (x.name, if r.type = .globals then x.name else "default") ∧
      stmt'.importRead? = some (x.name, "default") ∧
      (listed = plain ↔ (r.type = .globals → x.name = "default"))) ∧
    (∀ span, ∃ P b₁ b₂ e₁ e₂,
      let value := Node.mk span (.ident x.name) []
      let key := if r.type = .globals then x.name else "default"
      let plain := ofItems r (pre ++ .exportDefaultExpr value :: post)
      let listed := ofItems r (pre ++ .exportNamed [.named (.word x) (some name)] none :: post)
      listed.deps = plain.deps ∧
      plain.regions = ⟨P, b₁ ++ r.assignExport key value :: b₂, e₁ ++ e₂⟩ ∧
      listed.regions = ⟨P, b₁ ++ b₂, e₁ ++ r.assignExport key (ident x.name) :: e₂⟩) ∧
    (r.type = .globals →
      (∀ items, (∃ stmt ∈ (ofItems r items).regions.prologue, stmt.readKey? = some "default") ↔
        ∃ item ∈ items, "default" ∈ item.readNames .globals) ∧
      ∀ e, r.type.defaultExportKey r.moduleId e = "default" ↔
        e.tag = .ident "default" ∨ (∀ y, e.tag ≠ .ident y) ∧ r.moduleId = "default") := by
  refine ⟨fun source before after => ?_, fun span => ?_, fun ht => ⟨fun items => ?_, fun e => ?_⟩⟩
  · obtain ⟨d, A, B, hplain, hlisted, hdeps⟩ := ofItems_replace (r := r)
      (.importDecl (before ++ .default x :: after) source)
      (.importDecl (before ++ .named x (some name) :: after) source) rfl pre post
    rw [append_contribution_import] at hplain hlisted
    have hread : (importStmt r d (.named x (some name))).importRead? = some (x.name, "default") := by
      rw [importRead?_importStmt, ImportSpecifier.readName?, map_some (a := name), hname]
      rfl
    refine ⟨_, _, _, _, _, _, hdeps, hplain, hlisted, importRead?_importStmt d _, hread, ?_, fun h => ?_⟩
    · intro heq ht
      have hprologue := congrArg (·.regions.prologue) heq
      simp only [hplain, hlisted, append_cancel_left_eq, cons.injEq, and_true] at hprologue
      rw [hprologue, importRead?_importStmt, ImportSpecifier.readName?, if_pos ht] at hread
      exact (Prod.mk.inj (some_inj.mp hread)).2
    · rw [importStmt_default hname h, ← hplain] at hlisted
      exact eq_of_deps_of_regions hdeps hlisted
  · obtain ⟨d, A, B, hplain, hlisted, hdeps⟩ := ofItems_replace (r := r)
      (.exportDefaultExpr (.mk span (.ident x.name) []))
      (.exportNamed [.named (.word x) (some name)] none) rfl pre post
    refine ⟨A.prologue ++ B.prologue, A.body, B.body, A.epilogue, B.epilogue, hdeps, ?_, ?_⟩
    · rw [hplain, Registration.contribution, Registration.defaultExport, defaultExportKey_ident rfl,
        Regions.append_append]
      simp
    · rw [hlisted, Registration.contribution, flatMap_singleton, localExport_default hname,
        Regions.append_append]
      simp
  · have hread := filterMap_readKey?_prologue (r := r) items
    rw [ht] at hread
    rw [← mem_flatMap, ← hread, mem_filterMap]
  · rw [ht]
    unfold ModuleType.defaultExportKey
    split <;> simp_all

/-- An import behind another one, with the name `default` as a string. -/
theorem default_spellings_iff_string :
    let name : ExportName := .str ⟨Units.ofString "default", none⟩ .none
    let source : StrLit := ⟨Units.ofString "m", none⟩
    let plain : List ModuleItem := [.importDecl [.all ⟨"ns", .none⟩, .default ⟨"X", .none⟩] source]
    let listed : List ModuleItem := [.importDecl [.all ⟨"ns", .none⟩, .named ⟨"X", .none⟩ (some name)] source]
    name.text = "default" ∧ ofItems ⟨.amd, "a"⟩ listed = ofItems ⟨.amd, "a"⟩ plain ∧
      ofItems ⟨.globals, "a"⟩ listed ≠ ofItems ⟨.globals, "a"⟩ plain := by
  intro name source plain listed
  have hname : name.text = "default" := by decide +kernel
  have hiff : ∀ t, ofItems ⟨t, "a"⟩ listed = ofItems ⟨t, "a"⟩ plain ↔ (t = .globals → "X" = "default") := by
    intro t
    obtain ⟨_, _, _, _, _, _, -, -, -, -, -, hiff⟩ :=
      (default_spellings_iff ⟨t, "a"⟩ [] [] (x := ⟨"X", .none⟩) hname).1 source [.all ⟨"ns", .none⟩] []
    exact hiff
  exact ⟨hname, (hiff .amd).mpr (by simp), fun heq => absurd ((hiff .globals).mp heq rfl) (by decide)⟩

/-- On a shared object, the same import reads two different keys, and the second one is not the key that a
default export of the variable is stored under. -/
theorem default_import_in_list :
    (transpile ⟨.globals, "a"⟩ "import X from \"m\";").toOption =
      some "(function(__exports__) \x7b\n  \"use strict\";\nvar X = __exports__.X;\n\x7d)(this);\n" ∧
    (transpile ⟨.globals, "a"⟩ "import \x7b default as X \x7d from \"m\";").toOption =
      some "(function(__exports__) \x7b\n  \"use strict\";\nvar X = __exports__[\"default\"];\n\x7d)(this);\n" := by
  decide +kernel

end Layout

end EcmaLower
