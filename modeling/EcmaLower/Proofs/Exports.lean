import EcmaLower.Proofs.Layout
import EcmaLower.Proofs.Parser.Program
import Mathlib.Data.List.Perm.Basic

/-!
# Exports of a module

What a module exports is read off its items: names, each with a value that is a variable of the
module, an expression, or something of another module. The names of an exported declaration are those
at its binding places, which is said here by roles alone: keys, defaults, functions and classes are no
places where a declaration binds.

The layout assigns every export once, under its own name. A statement that assigns an export is
recognized by its shape, as a reader of the output would recognize it.

## Main results

* `boundNames_eq_declaredNames` — the compiler finds the names that a declaration binds.
* `Layout.exports_assigned` — the layout assigns exactly the exports of the module.
-/

namespace EcmaLower

open Node List Build

variable {r : Registration} {ks : List Node} {item : ModuleItem}

/-! ## Names of declarations -/

/-- Whether a part of a declaration may bind names: a declarator, a pattern or a property of one. -/
def Role.mayBind (r : Role) : Bool := r == declarator || r == pat || r == rest || r == patProp

/-- The name that a node binds itself. -/
def Tag.boundName : Tag → List String
  | binding name => [name]
  | patName name | funcDecl name | classDecl name => [name.name]
  | _ => []

/-- The names that a declaration binds: its own, or those at the binding places below it. -/
def Node.declaredNames (n : Node) : List String :=
  n.fold fun _ t ks => t.boundName ++ (ks.filter (·.1.role.mayBind)).flatMap (·.2)

lemma declaredNames_mk (s : Span) (t : Tag) (ks : List Node) : (mk s t ks).declaredNames =
      t.boundName ++ (ks.filter (·.role.mayBind)).flatMap declaredNames := by
  rw [declaredNames, fold_mk, filter_map, flatMap_map]
  rfl

/-- Nothing is bound outside of patterns. -/
lemma patternNames_eq_nil {n : Node} (h : n.role.mayBind = false) : patternNames n = [] := by
  obtain ⟨s, t, ks⟩ := n
  rw [patternNames, fold_mk]
  cases t <;> first | rfl | cases h

/-- The parts of a pattern that bind nothing can be left out. -/
lemma flatMap_patternNames (h : ∀ k ∈ ks, k.role.mayBind = true → patternNames k = k.declaredNames) :
    ks.flatMap patternNames = (ks.filter (·.role.mayBind)).flatMap declaredNames := by
  induction ks with
  | nil => rfl
  | cons k ks ih =>
    have ih := ih fun k hk => h k (mem_cons_of_mem _ hk)
    rw [flatMap_cons, ih]
    cases hk : k.role.mayBind with
    | false => rw [filter_cons_of_neg (by simp [hk]), patternNames_eq_nil hk, nil_append]
    | true =>
      rw [filter_cons_of_pos (by simpa using hk), flatMap_cons, h k (mem_cons_self ..) hk]

/-- Whether a role is that of a pattern or of a part of one. -/
def Role.isPattern (r : Role) : Bool := r == pat || r == rest || r == patProp

/-- A part of a pattern that binds names is a pattern itself. -/
lemma isPattern_of_fits {t : Tag} {rs : List Role} (ht : t.role.isPattern = true)
    (h : t.fits rs = true) : ∀ r ∈ rs, r.mayBind = true → r.isPattern = true := by
  suffices hnot : .declarator ∉ rs by
    intro r hr hbind
    cases r <;> first | rfl | exact absurd hr hnot | cases hbind
  intro hmem
  cases t with
  | binding name =>
    simp only [Tag.fits, beq_iff_eq] at h
    simp [h] at hmem
  | arrayPat | objectPat =>
    simp only [Tag.fits, all_eq_true] at h
    exact absurd (h _ hmem) (by decide)
  | restPat | assignPat | patKeyValue =>
    simp only [Tag.fits] at h
    split at h
    · simp only [mem_cons, not_mem_nil, or_false] at hmem
      rcases hmem with rfl | rfl <;> simp [Role.isTarget, Role.isPublicKey] at h
    · cases h
  | patName name =>
    simp only [Tag.fits, Bool.or_eq_true, beq_iff_eq] at h
    rcases h with rfl | rfl <;> simp at hmem
  | _ => cases ht

/-- **The names of a pattern** are those at its binding places. -/
lemma patternNames_eq_declaredNames (p : Node) (h : p.WellFormed) (hp : p.role.isPattern = true) :
    patternNames p = p.declaredNames := by
  induction p with
  | mk s t ks ih =>
    have hkids : ks.flatMap patternNames = (ks.filter (·.role.mayBind)).flatMap declaredNames :=
      flatMap_patternNames fun k hk hbind => ih k hk (h.kid hk)
        (isPattern_of_fits hp h.fits _ (mem_map_of_mem hk) hbind)
    rw [declaredNames_mk, ← hkids, patternNames, fold_mk]
    have hfits := h.fits
    cases t with
    | arrayPat | objectPat | restPat =>
      simp only [Tag.boundName, flatMap_map, nil_append]
      rfl
    | binding name =>
      obtain rfl := h.leaf rfl
      rfl
    | assignPat =>
      obtain ⟨target, value, rfl, -, hv⟩ := h.assignPat
      have hvalue : patternNames value = [] := patternNames_eq_nil (by rw [hv.2]; rfl)
      rw [flatMap_cons, flatMap_singleton, hvalue, append_nil]
      rfl
    | patKeyValue =>
      obtain ⟨key, target, rfl, hk, -⟩ := h.patKeyValue
      have hkey : patternNames key = [] := patternNames_eq_nil (by
        have hrole := hk.2
        cases hr : key.role <;> first | rfl | (rw [hr] at hrole; cases hrole))
      rw [flatMap_cons, flatMap_singleton, hkey]
      rfl
    | patName name =>
      simp only [Tag.fits, Bool.or_eq_true, beq_iff_eq, map_eq_nil_iff] at hfits
      have hnone : ks.flatMap patternNames = [] := by
        rw [flatMap_eq_nil_iff]
        intro k hk
        refine patternNames_eq_nil ?_
        rcases hfits with rfl | hroles
        · cases hk
        · have := mem_map_of_mem (f := role) hk
          rw [hroles, mem_singleton] at this
          rw [this]
          rfl
      rw [hnone]
      rfl
    | _ => cases hp

/-- The names of a declarator are those of its pattern. -/
lemma declaredNames_declarator {s : Span} (h : (mk s .declarator ks).WellFormed) :
    (mk s .declarator ks).declaredNames = (ks.head?.map patternNames).getD [] := by
  have hfits := h.fits
  have htarget : ∀ target ∈ ks, target.role.isTarget = true →
      ([target].filter (·.role.mayBind)).flatMap declaredNames = patternNames target := by
    intro target hmem hrole
    cases hbind : target.role.mayBind with
    | false => rw [filter_singleton, hbind, patternNames_eq_nil hbind]; rfl
    | true =>
      have hpat : target.role.isPattern = true := by
        cases hr : target.role <;> rw [hr] at hrole hbind <;>
          first | rfl | (cases hrole; done) | cases hbind
      rw [filter_singleton, hbind, patternNames_eq_declaredNames target (h.kid hmem) hpat]
      exact flatMap_singleton ..
  rw [declaredNames_mk]
  match ks, hfits, htarget with
  | [target], hfits, htarget => exact htarget target (by simp) (by simpa [Tag.fits] using hfits)
  | [target, value], hfits, htarget =>
    simp only [Tag.fits, map_cons, map_nil, Bool.and_eq_true, beq_iff_eq] at hfits
    have hvalue : [target, value].filter (·.role.mayBind) = [target].filter (·.role.mayBind) := by
      rw [← singleton_append, filter_append, filter_singleton (a := value), hfits.2]
      exact append_nil _
    rw [hvalue]
    exact htarget target (by simp) hfits.1

/-- **The names of a declaration**: the compiler finds those that the declaration binds. -/
theorem boundNames_eq_declaredNames {decl : Node} (h : decl.WellFormed)
    (hd : decl.tag.isDeclaration = true) : boundNames decl = decl.declaredNames := by
  obtain ⟨s, t, ks⟩ := decl
  rw [declaredNames_mk]
  cases t with
  | funcDecl name =>
    obtain ⟨f, rfl, hf⟩ := h.single rfl
    rw [filter_singleton, hf.2]
    rfl
  | classDecl name =>
    obtain ⟨c, rfl, hc⟩ := h.single rfl
    rw [filter_singleton, hc.2]
    rfl
  | varDecl kind =>
    have hroles := h.fits
    simp only [Tag.fits, all_map, all_eq_true, Function.comp_apply, beq_iff_eq] at hroles
    have hall : ks.filter (·.role.mayBind) = ks := by
      rw [filter_eq_self]
      intro k hk
      rw [hroles k hk]
      rfl
    rw [hall]
    refine flatMap_congr fun k hk => ?_
    obtain ⟨sk, tk, parts⟩ := k
    obtain rfl : tk = .declarator := by
      have := hroles _ hk
      cases tk <;> first | rfl | cases this
    exact (declaredNames_declarator (h.kid hk)).symm
  | _ => cases hd

/-! ## Exports -/

/-- What an export stands for. -/
inductive ExportValue
  /-- A variable of the module. -/
  | var (name : String)
  /-- The value of an expression. -/
  | expr (e : Node)
  /-- An export of another module. -/
  | passed (source name : String)
  /-- All exports of another module, as one object. -/
  | all (source : String)

/-- The source that an export is taken from. -/
def ExportValue.source? : ExportValue → Option String
  | passed source _ | all source => some source
  | var _ | expr _ => none

/-- An export: its name and what it stands for. -/
structure Export where
  name : String
  value : ExportValue

/-- What a part of a list of exports exports, of this module or of another one. -/
def ExportSpecifier.export? (source? : Option String) : ExportSpecifier → Option Export
  | named name exported =>
    some ⟨(exported.getD name).text, match source? with
      | none => .var name.text
      | some source => .passed source name.text⟩
  | all exported => source?.map fun source => ⟨exported.text, .all source⟩

namespace ModuleItem

/-- What an item exports by name. -/
def exports : ModuleItem → List Export
  | exportDecl decl => decl.declaredNames.map fun name => ⟨name, .var name⟩
  | exportDefaultFunc (some name) _ | exportDefaultClass (some name) _ =>
    [⟨"default", .var name.name⟩]
  | exportDefaultFunc none f => [⟨"default", .expr (.mk f.span (.funcExpr none) [f])⟩]
  | exportDefaultClass none c => [⟨"default", .expr (.mk c.span (.classExpr none) [c])⟩]
  | exportDefaultExpr e => [⟨"default", .expr e⟩]
  | exportNamed specs source =>
    specs.filterMap (ExportSpecifier.export? (source.map (Units.toText ·.value)))
  | stmt _ | importDecl .. | exportAll _ => []

/-- The statements of the module that an item holds. -/
def statements : ModuleItem → List Node
  | stmt s => [s]
  | exportDecl decl => [decl]
  | exportDefaultFunc (some name) f => [.mk f.span (.funcDecl name) [f]]
  | exportDefaultClass (some name) c => [.mk c.span (.classDecl name) [c]]
  | _ => []

end ModuleItem

/-- The code of the value of an export in a module with the given sources. -/
def ExportValue.node (t : ModuleType) (sources : List String) : ExportValue → Node
  | var name => ident name
  | expr e => e
  | passed source name => member (t.dependencyObject (dependencyOn sources source)) name
  | all source => t.dependencyObject (dependencyOn sources source)

/-- `value.IsCode t deps e`: the expression `e` is the value of an export, in a module with the given
dependencies. -/
def ExportValue.IsCode (t : ModuleType) (deps : List Dependency) : ExportValue → Node → Prop
  | var name, e => e = ident name
  | expr value, e => e = value
  | passed source name, e =>
    ∃ d ∈ deps, d.source = source ∧ e = member (t.dependencyObject d) name
  | all source, e => ∃ d ∈ deps, d.source = source ∧ e = t.dependencyObject d

/-! ## Assignments of exports -/

/-- The text of a key. -/
def Node.keyText? : Node → Option String
  | .mk _ (.keyName name) [] => some name
  | .mk _ .keyComputed [.mk _ (.str s) []] => some (Units.toText s.value)
  | _ => none

/-- The key and the value that a statement puts on the exports: `exports.key = value;`, where `name` is
the name of the object that takes the exports. -/
def Node.exportAssignment? (name : String) : Node → Option (String × Node)
  | .mk _ .exprStmt [.mk _ (.assign .plain) [.mk _ .member [.mk _ (.ident obj) [], key], value]] =>
    if obj = name then key.keyText?.map (·, value) else none
  | _ => none

/-- The name of the object that takes the exports of a module. -/
def ModuleType.exportsName : ModuleType → String
  | amd | globals => "__exports__"
  | cjs => "exports"

section Assignments

variable (r : Registration)

/-- An assignment of an export is read back. -/
lemma exportAssignment?_assignExport (key : String) (value : Node) :
    (r.assignExport key value).exportAssignment? r.type.exportsName = some (key, value) := by
  have hobj : ∃ name, r.type.exportsObject = ident name ∧ name = r.type.exportsName := by
    cases r.type <;> exact ⟨_, rfl, rfl⟩
  obtain ⟨name, hobj, hname⟩ := hobj
  rw [Registration.assignExport, hobj, member]
  split
  · simp [exprStmt, assign, access, make, ident, exportAssignment?, hname, keyText?]
  · simp [exprStmt, assign, access, index, computedKey, make,
      ident, strLit, unitsLit, exportAssignment?, hname, keyText?]

lemma filterMap_assignExport {α : Type} (l : List α) (key : α → String) (value : α → Node) :
    (l.map fun a => r.assignExport (key a) (value a)).filterMap
      (exportAssignment? r.type.exportsName) = l.map fun a => (key a, value a) := by
  rw [filterMap_map, ← filterMap_eq_map]
  exact filterMap_congr fun a _ => exportAssignment?_assignExport r _ _

/-- The default export of a module that does not share its object is named so. -/
lemma defaultExport_eq (h : r.type = .amd ∨ r.type = .cjs) (e : Node) :
    r.defaultExport e = r.assignExport "default" e := by
  rw [Registration.defaultExport]
  rcases h with h | h <;> rw [h] <;> rfl

end Assignments

/-- A part of a local list of exports is assigned from its variable. -/
lemma filterMap_localExport (hr : r.type = .amd ∨ r.type = .cjs) (sources : List String) (spec : ExportSpecifier) :
    (r.localExport spec).filterMap (exportAssignment? r.type.exportsName) =
      ((spec.export? none).map fun e => (e.name, e.value.node r.type sources)).toList := by
  cases spec with
  | all exported => rfl
  | named name exported =>
    have hkey : ∃ key, r.localExport (.named name exported) = [r.assignExport key (ident name.text)] ∧
        key = (exported.getD name).text := by
      refine ⟨_, rfl, ?_⟩
      cases exported with
      | none => rfl
      | some exported =>
        dsimp only [Option.map_some, Option.getD_some]
        split
        · next h =>
          rw [Option.some.inj h]
          rcases hr with hr | hr <;> rw [hr] <;> rfl
        · next h => exact (Option.some.inj h).symm
        · next h => cases h
    obtain ⟨key, hlocal, rfl⟩ := hkey
    rw [hlocal, filterMap_cons, exportAssignment?_assignExport]
    rfl

/-- A part of a list that is passed on is assigned from its dependency. -/
lemma exportAssignment?_passedExport (r : Registration) (sources : List String) (source : String)
    (spec : ExportSpecifier) :
    (r.passedExport (dependencyOn sources source) spec).exportAssignment? r.type.exportsName =
      (spec.export? (some source)).map fun e => (e.name, e.value.node r.type sources) := by
  cases spec with
  | all exported => exact exportAssignment?_assignExport r _ _
  | named name exported =>
    rw [Registration.passedExport, exportAssignment?_assignExport]
    cases exported <;> rfl

lemma statements_of_prologue (l : List Node) : ({ prologue := l } : Regions).statements = l := by
  simp [Regions.statements]

lemma statements_importRegions (r : Registration) (d : Dependency) (specs : List ImportSpecifier) :
    (r.importRegions d specs).statements = (r.importRegions d specs).prologue := by
  unfold Registration.importRegions
  split
  · cases r.type <;> rfl
  · exact statements_of_prologue _

/-- An import assigns no export. -/
lemma filterMap_importRegions (r : Registration) (d : Dependency) (specs : List ImportSpecifier)
    (name : String) : (r.importRegions d specs).prologue.filterMap (exportAssignment? name) = [] := by
  rw [filterMap_eq_nil_iff]
  intro stmt hstmt
  unfold Registration.importRegions at hstmt
  split at hstmt
  · cases ht : r.type with
    | cjs =>
      rw [ht, mem_singleton] at hstmt
      rw [hstmt]
      rfl
    | amd | globals =>
      rw [ht] at hstmt
      cases hstmt
  · obtain ⟨spec, -, rfl⟩ := mem_map.mp hstmt
    rfl

/-- **What an item adds** is its own statements and one assignment for each export. -/
lemma contribution_statements (hr : r.type = .amd ∨ r.type = .cjs) (sources : List String) (h : item.WellFormed) :
    ∃ generated, ((r.contribution (dependencyOn sources (item.source?.getD "")) item).statements).Perm
        (item.statements ++ generated) ∧
      generated.filterMap (exportAssignment? r.type.exportsName) =
        item.exports.map fun e => (e.name, e.value.node r.type sources) := by
  have hone : ∀ e : Node, [r.defaultExport e].filterMap (exportAssignment? r.type.exportsName) =
      [("default", e)] := by
    intro e
    rw [defaultExport_eq r hr]
    exact filterMap_assignExport r [e] (fun _ => "default") id
  cases item with
  | stmt s => exact ⟨[], Perm.refl [s], rfl⟩
  | importDecl specs source =>
    refine ⟨_, Perm.refl _, ?_⟩
    exact (congrArg _ (statements_importRegions r _ specs)).trans (filterMap_importRegions r _ specs _)
  | exportDecl decl =>
    refine ⟨_, Perm.refl _, ?_⟩
    simp only [ModuleItem.exports, ← boundNames_eq_declaredNames h.1 h.2, map_map]
    exact filterMap_assignExport r (boundNames decl) id ident
  | exportDefaultFunc name f | exportDefaultClass name c =>
    cases name with
    | none => exact ⟨_, Perm.refl _, hone _⟩
    | some name => exact ⟨_, Perm.refl [_, _], hone _⟩
  | exportDefaultExpr e => exact ⟨_, Perm.refl _, hone _⟩
  | exportNamed specs source =>
    cases source with
    | none =>
      refine ⟨_, Perm.refl _, ?_⟩
      change (specs.flatMap r.localExport).filterMap _ = _
      rw [filterMap_flatMap, ModuleItem.exports, map_filterMap, filterMap_eq_flatMap_toList]
      exact flatMap_congr fun spec _ => filterMap_localExport hr sources spec
    | some source =>
      refine ⟨_, Perm.refl _, ?_⟩
      refine (congrArg _ (statements_of_prologue _)).trans ?_
      rw [filterMap_map, ModuleItem.exports, map_filterMap]
      exact filterMap_congr fun spec _ => exportAssignment?_passedExport r sources _ spec
  | exportAll source =>
    refine ⟨_, Perm.refl _, ?_⟩
    rcases hr with hr | hr <;> simp only [Registration.contribution, Registration.allRegions, hr] <;> rfl

/-! ## The exports of a module -/

/-- The statements of a module are those that its items add, in another order. -/
lemma statements_regionsOf (r : Registration) (sources : List String) (items : List ModuleItem) :
    (r.regionsOf sources items).statements.Perm (items.flatMap fun item =>
      (r.contribution (dependencyOn sources (item.source?.getD "")) item).statements) := by
  simp only [Registration.regionsOf, Regions.statements, flatMap_map]
  refine ((flatMap_append_perm items _ _).append_right _).trans ?_
  exact flatMap_append_perm items _ _

lemma flatMap_contribution_statements (hr : r.type = .amd ∨ r.type = .cjs) (sources : List String)
    {items : List ModuleItem} (h : ∀ item ∈ items, item.WellFormed) :
    ∃ generated, (items.flatMap fun item =>
        (r.contribution (dependencyOn sources (item.source?.getD "")) item).statements).Perm
          (items.flatMap ModuleItem.statements ++ generated) ∧
      generated.filterMap (exportAssignment? r.type.exportsName) =
        (items.flatMap ModuleItem.exports).map fun e => (e.name, e.value.node r.type sources) := by
  induction items with
  | nil => exact ⟨[], Perm.refl _, rfl⟩
  | cons item items ih =>
    obtain ⟨first, hfirst, hread⟩ := contribution_statements hr sources (h item (mem_cons_self ..))
    obtain ⟨rest, hrest, hreads⟩ := ih fun item hitem => h item (mem_cons_of_mem _ hitem)
    refine ⟨first ++ rest, ?_, ?_⟩
    · -- the statements of the item and what is generated for the rest change places
      rw [flatMap_cons, flatMap_cons]
      refine (hfirst.append hrest).trans ?_
      rw [append_assoc, append_assoc]
      refine Perm.append_left _ ?_
      rw [← append_assoc, ← append_assoc]
      exact perm_append_comm.append_right _
    · rw [filterMap_append, hread, hreads, flatMap_cons, map_append]

/-- An export that comes from another module comes from the source of its item. -/
lemma source?_of_mem_exports {e : Export} {source : String} (he : e ∈ item.exports)
    (hs : e.value.source? = some source) : item.source? = some source := by
  cases item with
  | exportNamed specs source =>
    obtain ⟨spec, -, hspec⟩ := mem_filterMap.mp he
    cases source <;> cases spec <;> cases hspec <;> exact hs
  | exportDecl decl =>
    obtain ⟨name, -, rfl⟩ := mem_map.mp he
    cases hs
  | exportDefaultFunc name f | exportDefaultClass name f =>
    cases name <;> cases mem_singleton.mp he <;> cases hs
  | exportDefaultExpr e =>
    cases mem_singleton.mp he
    cases hs
  | _ => cases he

lemma isCode_node (t : ModuleType) {sources : List String} {value : ExportValue}
    (h : ∀ source, value.source? = some source → source ∈ sources) :
    value.IsCode t (dependenciesOn sources) (value.node t sources) := by
  cases value with
  | var | expr => rfl
  | passed source | all source => exact ⟨_, dependencyOn_mem (h source rfl), rfl, rfl⟩

namespace Layout

/-- **Every export is assigned once, under its own name.** The statements of a module that is read are
its own and generated ones. The generated ones that assign an export assign exactly the exports of the
module: a variable from its name, a default export from its expression, and an export that is passed on
from the dependency of its source. -/
theorem exports_assigned {text : String} {p : Parsed ModuleItem} (h : parseModule text = .ok p)
    {t : ModuleType} (ht : t = .amd ∨ t = .cjs) (moduleId : String) :
    let layout := ofItems ⟨t, moduleId⟩ p.body
    ∃ generated,
      layout.regions.statements.Perm (p.body.flatMap ModuleItem.statements ++ generated) ∧
      Forall₂ (fun e a => a.1 = e.name ∧ e.value.IsCode t layout.deps a.2)
        (p.body.flatMap ModuleItem.exports) (generated.filterMap (exportAssignment? t.exportsName)) := by
  intro layout
  obtain ⟨generated, hperm, hread⟩ := flatMap_contribution_statements (r := ⟨t, moduleId⟩) ht
    (sourcesOf p.body) (wellFormed_of_parseModule h)
  refine ⟨generated, ?_, ?_⟩
  · simp only [layout, ofItems_eq]
    exact (statements_regionsOf _ _ p.body).trans hperm
  · rw [hread, forall₂_map_right_iff]
    refine forall₂_same.mpr fun e he => ⟨rfl, ?_⟩
    obtain ⟨item, hitem, he⟩ := mem_flatMap.mp he
    simp only [layout, ofItems_eq]
    exact isCode_node t fun source hs =>
      mem_sourcesOf.mpr ⟨item, hitem, source?_of_mem_exports he hs⟩

/-- The variables of a nested pattern and a renamed export of another module are assigned. -/
theorem exports_assigned_pattern : ∃ p,
    parseModule "export var \x7ba, b: [, c = 1]\x7d = o; export \x7bx as y\x7d from 'm';" = .ok p ∧
    ∃ generated, (ofItems ⟨.cjs, "n"⟩ p.body).regions.statements.Perm
        (p.body.flatMap ModuleItem.statements ++ generated) ∧
      (generated.filterMap (exportAssignment? "exports")).map (·.1) = ["a", "c", "y"] := by
  obtain ⟨p, hp, hnames⟩ := exists_of_any_toOption (e := parseModule
      "export var \x7ba, b: [, c = 1]\x7d = o; export \x7bx as y\x7d from 'm';")
    (P := fun p => (p.body.flatMap ModuleItem.exports).map (·.name) == ["a", "c", "y"])
    (by decide +kernel)
  obtain ⟨generated, hperm, hread⟩ := exports_assigned hp (t := .cjs) (.inr rfl) "n"
  refine ⟨p, hp, generated, hperm, ?_⟩
  rw [← eq_of_beq hnames, ← forall₂_eq_eq_eq, forall₂_map_left_iff,
    forall₂_map_right_iff]
  exact hread.flip.imp fun _ _ h => h.1

end Layout

end EcmaLower
