import EcmaLower.Module.Transpile
import EcmaLower.Proofs.Names
import EcmaLower.Proofs.Tree
import EcmaLower.Proofs.Units
import Mathlib.Data.List.Infix

/-!
# Dependencies of a module

A layout takes the items of a module one by one and numbers a dependency at its first use. This module
says what the whole layout is: the dependencies are the sources of the declarations, each where it
occurs first, and every item contributes what it would contribute if all numbers had been known from
the start. Everything that is said about the regions of a module goes through this equation.

## Main results

* `Layout.ofItems_eq` — the layout of a module.
* `Layout.dependency_numbering` — numbers, parameters and sources agree.
* `Layout.required_sources` — what a module loads with `require`.
-/

namespace EcmaLower

open List Build Option

variable {sources : List String} {item : ModuleItem} {d e : Dependency} {stmt : Node} {moduleId : String}

/-! ## Sources -/

/-- The source that a declaration names: that of an import, or of an export that is passed on. -/
def ModuleItem.source? : ModuleItem → Option String
  | importDecl _ source | exportNamed _ (some source) | exportAll source =>
    some (Units.toText source.value)
  | _ => none

/-- The sources of a module, each where it occurs first. -/
def sourcesOf (items : List ModuleItem) : List String := (items.filterMap ModuleItem.source?).eraseDups

/-- The dependency of a source among the sources of a module: its number is its place. -/
def dependencyOn (sources : List String) (source : String) : Dependency := ⟨sources.idxOf source + 1, source⟩

/-- The dependencies of a list of sources. -/
def dependenciesOn (sources : List String) : List Dependency := sources.mapIdx fun i source => ⟨i + 1, source⟩

section Sources

variable {items : List ModuleItem} {item : ModuleItem} {source : String}

lemma mem_sourcesOf : source ∈ sourcesOf items ↔ ∃ item ∈ items, item.source? = some source := by
  rw [sourcesOf, mem_eraseDups, mem_filterMap]

@[simp] lemma map_source_dependenciesOn (sources : List String) :
    (dependenciesOn sources).map Dependency.source = sources := by
  apply ext_getElem <;> simp [dependenciesOn]

@[simp] lemma length_dependenciesOn (sources : List String) :
    (dependenciesOn sources).length = sources.length := length_mapIdx

lemma dependenciesOn_concat (sources : List String) (source : String) : dependenciesOn (sources ++ [source]) =
      dependenciesOn sources ++ [⟨sources.length + 1, source⟩] := by
  rw [dependenciesOn, mapIdx_concat, dependenciesOn]

lemma dependencyOn_concat (h : source ∉ sources) :
    dependencyOn (sources ++ [source]) source = ⟨sources.length + 1, source⟩ := by
  rw [dependencyOn, idxOf_append_of_notMem h]
  simp

/-- A source is found at its place. -/
lemma find?_dependenciesOn (h : source ∈ sources) :
    (dependenciesOn sources).find? (·.source == source) = some (dependencyOn sources source) := by
  rw [find?_eq_some_iff_getElem]
  refine ⟨beq_self_eq_true source, sources.idxOf source, by simpa using idxOf_lt_length_of_mem h,
    ?_, fun j hj => ?_⟩
  · simp [dependenciesOn, dependencyOn]
  · have := not_of_lt_findIdx hj
    simpa [dependenciesOn] using this

lemma dependencyOn_mem (h : source ∈ sources) : dependencyOn sources source ∈ dependenciesOn sources :=
  mem_of_find?_eq_some (find?_dependenciesOn h)

lemma removeAll_singleton (a : String) (l : List String) : [a].removeAll l = if a ∈ l then [] else [a] := by
  by_cases h : a ∈ l <;> simp [removeAll, h]

/-- A source goes to the end of the sources if it is new. -/
lemma sourcesOf_concat (items : List ModuleItem) (item : ModuleItem) :
    sourcesOf (items ++ [item]) = match item.source? with
      | none => sourcesOf items
      | some source =>
        if source ∈ sourcesOf items then sourcesOf items else sourcesOf items ++ [source] := by
  unfold sourcesOf
  rw [filterMap_append]
  cases h : item.source? with
  | none => simp [h]
  | some source =>
    simp only [filterMap_cons, h, filterMap_nil, eraseDups_append, removeAll_singleton, mem_eraseDups]
    split
    · rw [eraseDups_nil, append_nil]
    · rfl

/-- More items add sources at the end. -/
lemma sourcesOf_append (items more : List ModuleItem) : sourcesOf items <+: sourcesOf (items ++ more) := by
  rw [sourcesOf, sourcesOf, filterMap_append, eraseDups_append]
  exact prefix_append _ _

lemma dependencyOn_of_isPrefix {more : List String} (h : sources <+: more) (hs : source ∈ sources) :
    dependencyOn more source = dependencyOn sources source := by
  obtain ⟨rest, rfl⟩ := h
  rw [dependencyOn, dependencyOn, idxOf_append_of_mem hs]

end Sources

/-! ## What an item contributes -/

/-- What an item adds to the regions of a module, given the dependency of the source it names. -/
def Registration.contribution (r : Registration) (d : Dependency) : ModuleItem → Regions
  | .stmt s => { body := [s] }
  | .importDecl specs _ => r.importRegions d specs
  | .exportDecl decl => r.declRegions decl
  | .exportDefaultFunc (some n) f => r.namedDefault n (.mk f.span (.funcDecl n) [f])
  | .exportDefaultFunc none f => { body := [r.defaultExport (.mk f.span (.funcExpr none) [f])] }
  | .exportDefaultClass (some n) c => r.namedDefault n (.mk c.span (.classDecl n) [c])
  | .exportDefaultClass none c => { body := [r.defaultExport (.mk c.span (.classExpr none) [c])] }
  | .exportDefaultExpr e => { body := [r.defaultExport e] }
  | .exportNamed specs none => { epilogue := specs.flatMap r.localExport }
  | .exportNamed specs (some _) => { prologue := specs.map (r.passedExport d) }
  | .exportAll _ => r.allRegions d

/-- What the items of a module add, one after the other, each with the dependency of its source. -/
def Registration.regionsOf (r : Registration) (sources : List String) (items : List ModuleItem) : Regions :=
  let contributions := items.map fun item =>
    r.contribution (dependencyOn sources (item.source?.getD "")) item
  ⟨contributions.flatMap (·.prologue), contributions.flatMap (·.body), contributions.flatMap (·.epilogue)⟩

namespace Layout

variable (r : Registration)

/-- An item is added with the dependency of its source. -/
lemma push_eq (l : Layout) (item : ModuleItem) : push r l item = match item.source? with
    | none => l.add (r.contribution (dependencyOn [] "") item)
    | some source => (l.dependency source).2.add (r.contribution (l.dependency source).1 item) := by
  cases item with
  | exportDefaultFunc name f | exportDefaultClass name c => cases name <;> rfl
  | exportNamed specs source => cases source <;> rfl
  | _ => rfl

/-- An item that names no source contributes the same whatever the dependency. -/
lemma contribution_of_source_eq_none (h : item.source? = none) (d d' : Dependency) :
    r.contribution d item = r.contribution d' item := by
  cases item with
  | importDecl | exportAll => cases h
  | exportDefaultFunc name f | exportDefaultClass name c => cases name <;> rfl
  | exportNamed specs source =>
    cases source with
    | none => rfl
    | some source => cases h
  | _ => rfl

/-- A source that is known keeps its number, and a new one gets the next. -/
lemma dependency_eq {l : Layout} (h : l.deps = dependenciesOn sources) (source : String) :
    let sources' := if source ∈ sources then sources else sources ++ [source]
    l.dependency source = (dependencyOn sources' source, { l with deps := dependenciesOn sources' }) := by
  intro sources'
  obtain ⟨deps, regions⟩ := l
  obtain rfl : deps = dependenciesOn sources := h
  rw [dependency]
  by_cases hs : source ∈ sources
  · simp only [sources', hs, if_true, find?_dependenciesOn hs]
  · have hfind : (dependenciesOn sources).find? (·.source == source) = none := by
      rw [find?_eq_none]
      intro d hd hsource
      have hmem := mem_map_of_mem (f := Dependency.source) hd
      rw [map_source_dependenciesOn] at hmem
      exact hs (beq_iff_eq.mp hsource ▸ hmem)
    simp only [sources', hs, if_false, hfind, dependenciesOn_concat, length_dependenciesOn, dependencyOn_concat hs]

/-- More items do not change what an item contributes. -/
lemma contribution_append {items : List ModuleItem} (h : item ∈ items) (more : List ModuleItem) :
    r.contribution (dependencyOn (sourcesOf (items ++ more)) (item.source?.getD "")) item =
      r.contribution (dependencyOn (sourcesOf items) (item.source?.getD "")) item := by
  cases hs : item.source? with
  | none => exact contribution_of_source_eq_none r hs _ _
  | some source =>
    rw [getD_some, dependencyOn_of_isPrefix (sourcesOf_append items more) (mem_sourcesOf.mpr ⟨item, h, hs⟩)]

lemma regionsOf_concat (items : List ModuleItem) (item : ModuleItem) :
    r.regionsOf (sourcesOf (items ++ [item])) (items ++ [item]) = r.regionsOf (sourcesOf items) items ++
        r.contribution (dependencyOn (sourcesOf (items ++ [item])) (item.source?.getD "")) item := by
  simp only [Registration.regionsOf, map_append, map_cons, map_nil,
    flatMap_append, map_congr_left fun it hit => contribution_append r hit [item],
    flatMap_cons, flatMap_nil, append_nil]
  rfl

/-- **The layout of a module.** The dependencies are the sources of the declarations, each where it
occurs first, and every item contributes as if they had all been numbered before.

**Proof sketch.** By induction from the end: one more item adds at most one source, behind the others,
so the numbers that the earlier items were added with are still the places of their sources. -/
theorem ofItems_eq (items : List ModuleItem) : ofItems r items =
    { deps := dependenciesOn (sourcesOf items), regions := r.regionsOf (sourcesOf items) items } := by
  induction items using reverseRecOn with
  | nil => rfl
  | append_singleton items item ih =>
    have hstep : ofItems r (items ++ [item]) = push r (ofItems r items) item := by
      rw [ofItems, foldl_concat, ofItems]
    have hsources := sourcesOf_concat items item
    rw [hstep, push_eq, ih, regionsOf_concat]
    cases hs : item.source? with
    | none =>
      rw [hs] at hsources
      simp only [hsources, add, getD_none,
        contribution_of_source_eq_none r hs (dependencyOn [] "") (dependencyOn (sourcesOf items) "")]
    | some source =>
      rw [hs] at hsources
      simp only [dependency_eq (l := ⟨dependenciesOn (sourcesOf items), _⟩) rfl source, ← hsources, add, getD_some]

/-- What one more item adds to the regions of a module, with the dependency that its source has in any
module that starts like this. -/
lemma regions_concat (pre : List ModuleItem) (item : ModuleItem) (post : List ModuleItem) :
    (ofItems r (pre ++ [item])).regions = (ofItems r pre).regions ++
      r.contribution (dependencyOn (sourcesOf (pre ++ item :: post)) (item.source?.getD "")) item := by
  have hpost : pre ++ item :: post = (pre ++ [item]) ++ post := by simp
  rw [ofItems_eq, ofItems_eq, regionsOf_concat, hpost, contribution_append r (show item ∈ pre ++ [item] by simp) post]

end Layout

/-! ## Names and calls in generated code -/

/-- The name that a node is. -/
def Node.ownRef (n : Node) : List String :=
  match n.tag with
  | .ident name => [name]
  | _ => []

/-- The source that a node loads, if it is a call of `require`. -/
def Node.ownRequire : Node → List String
  | .mk _ .call [.mk _ (.ident f) _, .mk _ (.str s) _] =>
    if f = "require" then [Units.toText s.value] else []
  | _ => []

/-- The names that a tree refers to, in source order. -/
abbrev Node.refs (n : Node) : List String := n.collect ownRef

/-- The sources that a tree loads with `require`, in source order. -/
abbrev Node.requires (n : Node) : List String := n.collect ownRequire

/-- What is collected is found at names, and at calls whose callee is a name. -/
class Sparse (own : Node → List String) : Prop where
  other : ∀ s t ks, (∀ name, t ≠ .ident name) → t ≠ .call → own (.mk s t ks) = []
  call : ∀ s callee args, (∀ name, callee.tag ≠ .ident name) → own (.mk s .call (callee :: args)) = []

instance : Sparse Node.ownRef where
  other s t ks hident _ := by
    cases t with
    | ident name => exact absurd rfl (hident name)
    | _ => rfl
  call _ _ _ _ := rfl

instance : Sparse Node.ownRequire where
  other s t ks _ hcall := by
    cases t with
    | call => exact absurd rfl hcall
    | _ => rfl
  call s callee args hident := by
    unfold Node.ownRequire
    split
    · rename_i he
      simp only [Node.mk.injEq, cons.injEq] at he
      exact absurd (congrArg Node.tag he.2.2.1) (hident _)
    · rfl

namespace Build

open Node

variable {own : Node → List String} [Sparse own]

lemma collect_other {s : Span} {t : Tag} {ks : List Node} (hident : ∀ name, t ≠ .ident name)
    (hcall : t ≠ .call) : (mk s t ks).collect own = ks.flatMap (·.collect own) := by
  rw [collect_mk, @Sparse.other own _ s t ks hident hcall, nil_append]

@[simp] lemma collect_strLit (text : String) : (strLit text).collect own = [] := collect_other (by simp) (by simp)

@[simp] lemma collect_member (obj : Node) (name : String) : (member obj name).collect own = obj.collect own := by
  unfold member
  split <;> simp [access, index, computedKey, make, collect_other]

@[simp] lemma collect_assign (a b : Node) : (assign a b).collect own = a.collect own ++ b.collect own := by
  simp [assign, make, collect_other]

@[simp] lemma collect_exprStmt (e : Node) : (exprStmt e).collect own = e.collect own := by
  simp [exprStmt, make, collect_other]

/-- A variable with an initializer holds what the initializer does. -/
lemma collect_var (s : Span) (name : String) (value : Node) :
    (var [declarator (.mk s (.binding name) []) (some value)]).collect own = value.collect own := by
  simp [var, declarator, make, collect_other]

lemma collect_path (root : String) (names : List String) :
    (path (root :: names)).collect own = (ident root).collect own := by
  suffices h : ∀ e : Node, (names.foldl member e).collect own = e.collect own by rw [path, h]
  induction names with
  | nil => exact fun _ => rfl
  | cons name names ih => intro e; rw [foldl_cons, ih, collect_member]

@[simp] lemma refs_ident (name : String) : (ident name).refs = [name] := rfl

@[simp] lemma requires_ident (name : String) : (ident name).requires = [] := rfl

/-- The call that asks whether an object has a property of its own. -/
lemma collect_owns (source : Node) (key : String) :
    (call (path ["Object", "prototype", "hasOwnProperty", "call"]) [source, ident key]).collect own =
      (ident "Object").collect own ++ (source.collect own ++ (ident key).collect own) := by
  have htag : ∀ (obj : Node) (p name : String), (member obj p).tag ≠ .ident name := by
    intro obj p name
    unfold member
    split <;> simp [access, index, make]
  have hcall : own (make .call [path ["Object", "prototype", "hasOwnProperty", "call"], source,
      ident key]) = [] := Sparse.call _ _ _ (htag _ "call")
  rw [call, make, collect_mk, ← make, hcall, flatMap_cons, collect_path]
  simp

/-- The loop that copies properties holds what the two objects hold. -/
lemma mem_collect_ownKeysCopy {source target : Node} {key skip x : String} :
    x ∈ (ownKeysCopy source target key (some skip)).collect own ↔
      x ∈ source.collect own ∨ x ∈ target.collect own ∨ x ∈ (ident key).collect own ∨
        x ∈ (ident "Object").collect own := by
  simp only [ownKeysCopy, make, var, declarator, binding, ifStmt, binary, index, access, computedKey,
    ne_eq, reduceCtorEq, not_false_eq_true, implies_true, collect_other, collect_strLit,
    collect_exprStmt, collect_assign, collect_owns, toList, flatMap_cons,
    flatMap_nil, mem_append, not_mem_nil]
  tauto

end Build

/-! ## The names of dependencies -/

/-- The value of an import is read from its dependency. -/
lemma refs_importBinding (moduleId : String) (d : Dependency) (spec : ImportSpecifier) :
    ((⟨.amd, moduleId⟩ : Registration).importBinding d spec).2.refs = [d.param] := by
  cases spec <;>
    simp [Registration.importBinding, ModuleType.defaultImport, ModuleType.dependencyObject]

/-- An export that is passed on is read from its dependency. -/
lemma refs_passedExport (moduleId : String) (d : Dependency) (spec : ExportSpecifier) :
    ((⟨.amd, moduleId⟩ : Registration).passedExport d spec).refs = [exportsParam, d.param] := by
  cases spec <;>
    simp [Registration.passedExport, Registration.assignExport, ModuleType.exportsObject, ModuleType.dependencyObject]

/-- A statement that an item with a source adds refers to its dependency, and else only to names that
belong to no dependency. -/
lemma refs_contribution (h : item.source?.isSome = true)
    (hstmt : stmt ∈ ((⟨.amd, moduleId⟩ : Registration).contribution d item).statements) : d.param ∈ stmt.refs ∧
      ∀ x ∈ stmt.refs, x = d.param ∨ x ∈ [exportsParam, "__key__", "Object"] := by
  cases item with
  | importDecl specs source =>
    cases specs with
    | nil => simp [Registration.contribution, Registration.importRegions, Regions.statements] at hstmt
    | cons spec specs =>
      simp only [Registration.contribution, Registration.importRegions, isEmpty_cons,
        Bool.false_eq_true, if_false, Regions.statements, append_nil, List.mem_map] at hstmt
      obtain ⟨spec, -, rfl⟩ := hstmt
      rw [Node.refs, collect_var, ← Node.refs, refs_importBinding]
      simp
  | exportNamed specs source =>
    cases source with
    | none => cases h
    | some source =>
      simp only [Registration.contribution, Regions.statements, append_nil, List.mem_map] at hstmt
      obtain ⟨spec, -, rfl⟩ := hstmt
      rw [refs_passedExport]
      simp
  | exportAll source =>
    simp only [Registration.contribution, Registration.allRegions, Regions.statements,
      append_nil, mem_singleton] at hstmt
    subst hstmt
    simp only [mem_collect_ownKeysCopy, ModuleType.dependencyObject, ModuleType.exportsObject,
      refs_ident, mem_cons, not_mem_nil, or_false, true_or,
      true_and]
    exact fun x hx => hx
  | _ => cases h

/-- Different numbers give different parameters. -/
lemma Dependency.index_eq_of_param_eq (h : d.param = e.param) : d.index = e.index := by
  simp only [param, String.append_left_inj, String.append_right_inj] at h
  exact toString_injective h

lemma Dependency.param_notMem (d : Dependency) : d.param ∉ [exportsParam, "__key__", "Object"] := by
  have hne : ∀ name : String, name.toList.take 3 ≠ ['_', '_', 'd'] → d.param ≠ name := by
    rintro name h rfl
    exact h (by simp [param])
  simp only [mem_cons, not_mem_nil, or_false, not_or]
  exact ⟨hne _ (by decide), hne _ (by decide), hne _ (by decide)⟩

/-- A statement that an item with a source adds refers to no other dependency. -/
lemma param_mem_refs_iff (h : item.source?.isSome = true)
    (hstmt : stmt ∈ ((⟨.amd, moduleId⟩ : Registration).contribution d item).statements) :
    e.param ∈ stmt.refs ↔ e.index = d.index := by
  obtain ⟨hown, honly⟩ := refs_contribution h hstmt
  constructor
  · intro he
    rcases honly _ he with hparam | hother
    · exact Dependency.index_eq_of_param_eq hparam
    · exact absurd hother e.param_notMem
  · intro he
    rwa [Dependency.param, he]

/-! ## The numbers of a module -/

/-- The text of a module with a parameter for each dependency. -/
lemma ModuleType.wrap_amd (moduleId : String) (deps : List Dependency) (body : String) :
    ∃ rest, amd.wrap moduleId deps body = "define(" ++ quoted moduleId ++ ",\n  [" ++
      joinWith "," (deps.map (fun d => quoted d.source) ++ [quoted "exports"]) ++ "],\n  function(" ++
      joinWith ", " (deps.map Dependency.param ++ ["__exports__"]) ++
      ") \x7b\n    \"use strict\";\n" ++ rest := by
  refine ⟨trimEnd body ++ "\n  \x7d);\n", ?_⟩
  rw [← String.append_assoc]
  rfl

lemma transpile_eq {r : Registration} {text : String} {parsed : Parsed ModuleItem}
    (h : parseModule text = .ok parsed) :
    ∃ body, transpile r text = .ok (r.type.wrap r.moduleId (Layout.ofItems r parsed.body).deps body) := by
  unfold transpile
  rw [h]
  exact ⟨_, rfl⟩

namespace Layout

/-- **Numbers, parameters and sources agree.** After any part of the items, the dependencies are the
sources met so far, each where it occurs first, numbered from 1. A statement that a declaration adds
refers to the dependency whose number is the place of the declaration's source among all sources of the
module, and to no other. In the text of the module, the entries of the dependency list and the
parameters of the function belong together one by one, and the exports come last. -/
theorem dependency_numbering (moduleId : String) (items : List ModuleItem) :
    (∀ (r : Registration) (pre : List ModuleItem), pre <+: items →
      (ofItems r pre).deps = (pre.filterMap ModuleItem.source?).eraseDups.mapIdx
        fun i source => ⟨i + 1, source⟩) ∧
    (∀ (pre : List ModuleItem) (item : ModuleItem) (post : List ModuleItem) (source : String),
      items = pre ++ item :: post → item.source? = some source →
      ∃ new : Regions, (ofItems ⟨.amd, moduleId⟩ (pre ++ [item])).regions =
          (ofItems ⟨.amd, moduleId⟩ pre).regions ++ new ∧
        ∀ stmt ∈ new.statements, ∀ d : Dependency, d.param ∈ stmt.refs ↔
          d.index = 1 + ((ofItems ⟨.amd, moduleId⟩ items).deps.map Dependency.source).idxOf source) ∧
    (∀ (text : String) (parsed : Parsed ModuleItem), parseModule text = .ok parsed →
      parsed.body = items →
      let deps := (ofItems ⟨.amd, moduleId⟩ items).deps
      ∃ (entries params : List String) (rest : String),
        transpile ⟨.amd, moduleId⟩ text = .ok ("define(" ++ quoted moduleId ++ ",\n  [" ++
          joinWith "," (entries ++ [quoted "exports"]) ++ "],\n  function(" ++
          joinWith ", " (params ++ ["__exports__"]) ++ ") \x7b\n    \"use strict\";\n" ++ rest) ∧
        entries.length = deps.length ∧ params.length = deps.length ∧
        ∀ (k : Nat) (d : Dependency), deps[k]? = some d →
          entries[k]? = some (quoted d.source) ∧ params[k]? = some d.param) := by
  refine ⟨fun r pre _ => ?_, fun pre item post source hitems hs => ?_, fun text parsed htext hbody => ?_⟩
  · rw [ofItems_eq]
    rfl
  · refine ⟨_, regions_concat _ pre item post, fun stmt hstmt d => ?_⟩
    rw [param_mem_refs_iff (by rw [hs]; rfl) hstmt, ofItems_eq, map_source_dependenciesOn, ← hitems, hs,
      getD_some, dependencyOn, Nat.add_comm]
  · intro deps
    obtain ⟨body, htranspile⟩ := transpile_eq (r := ⟨.amd, moduleId⟩) htext
    obtain ⟨rest, hwrap⟩ := ModuleType.wrap_amd moduleId deps body
    refine ⟨deps.map fun d => quoted d.source, deps.map Dependency.param, rest, ?_, by simp, by simp,
      fun k d hk => by simp [hk]⟩
    rw [htranspile, hbody, ← hwrap]

/-- A source that is imported again keeps its number. -/
theorem dependency_numbering_repeated :
    let first : List ModuleItem := [.importDecl [.default ⟨"a", .none⟩] ⟨Units.ofString "x", none⟩,
      .importDecl [.default ⟨"b", .none⟩] ⟨Units.ofString "y", none⟩]
    let again : ModuleItem := .importDecl [.default ⟨"c", .none⟩] ⟨Units.ofString "x", none⟩
    ∃ new : Regions, (ofItems ⟨.amd, "m"⟩ (first ++ [again])).regions =
        (ofItems ⟨.amd, "m"⟩ first).regions ++ new ∧
      ∀ stmt ∈ new.statements, ∀ d : Dependency, d.param ∈ stmt.refs ↔ d.index = 1 := by
  intro first again
  have hsource : again.source? = some "x" := by decide +kernel
  have hplace : ((ofItems ⟨.amd, "m"⟩ (first ++ [again])).deps.map Dependency.source).idxOf "x" = 0 := by
    decide +kernel
  have hnew := (dependency_numbering "m" (first ++ [again])).2.1 first again [] "x" rfl hsource
  rwa [hplace] at hnew

end Layout

/-! ## Modules that are loaded -/

/-- Whether an item loads the module it names: every declaration with a source does, but a list of
exports only if it is not empty. -/
def ModuleItem.loads : ModuleItem → Bool
  | importDecl .. | exportAll _ => true
  | exportNamed specs (some _) => !specs.isEmpty
  | _ => false

lemma requires_dependencyObject (d : Dependency) : (ModuleType.cjs.dependencyObject d).requires = [d.source] := by
  simp [ModuleType.dependencyObject, call, make, Node.collect_mk, Node.ownRequire, strLit, ident, unitsLit]

lemma requires_importBinding (moduleId : String) (d : Dependency) (spec : ImportSpecifier) :
    ((⟨.cjs, moduleId⟩ : Registration).importBinding d spec).2.requires = [d.source] := by
  cases spec <;>
    simp [Registration.importBinding, ModuleType.defaultImport, requires_dependencyObject]

lemma requires_passedExport (moduleId : String) (d : Dependency) (spec : ExportSpecifier) :
    ((⟨.cjs, moduleId⟩ : Registration).passedExport d spec).requires = [d.source] := by
  cases spec <;>
    simp [Registration.passedExport, Registration.assignExport, ModuleType.exportsObject, requires_dependencyObject]

/-- An item that loads its source loads nothing else. -/
lemma mem_requires_contribution (moduleId : String) (d : Dependency) (item : ModuleItem) (x : String) :
    x ∈ ((⟨.cjs, moduleId⟩ : Registration).contribution d item).prologue.flatMap Node.requires ↔
      item.loads = true ∧ x = d.source := by
  cases item with
  | importDecl specs source =>
    cases specs with
    | nil =>
      simp [Registration.contribution, Registration.importRegions, requires_dependencyObject, ModuleItem.loads]
    | cons spec specs =>
      simp [Registration.contribution, Registration.importRegions, collect_var,
        requires_importBinding, ModuleItem.loads]
  | exportNamed specs source =>
    cases source with
    | none => simp [Registration.contribution, ModuleItem.loads]
    | some source =>
      cases specs <;>
        simp [Registration.contribution, requires_passedExport, ModuleItem.loads]
  | exportAll source =>
    simp [Registration.contribution, Registration.allRegions, mem_collect_ownKeysCopy,
      ModuleType.exportsObject, requires_dependencyObject, ModuleItem.loads]
  | exportDefaultFunc name f | exportDefaultClass name c =>
    cases name <;> simp [Registration.contribution, Registration.namedDefault, ModuleItem.loads]
  | _ => simp [Registration.contribution, Registration.declRegions, ModuleItem.loads]

/-- A list with one element, perhaps repeated, behind another list. -/
lemma eraseDups_append_of_mem_iff {l l' : List String} {a : String} (h : ∀ x, x ∈ l' ↔ x = a) :
    (l ++ l').eraseDups = if a ∈ l.eraseDups then l.eraseDups else l.eraseDups ++ [a] := by
  have hall : ∀ x ∈ l', x = a := fun x hx => (h x).mp hx
  rw [eraseDups_append]
  by_cases ha : a ∈ l
  · have hnil : l'.removeAll l = [] := by
      rw [removeAll, filter_eq_nil_iff]
      intro x hx
      simpa [hall x hx] using ha
    rw [hnil, eraseDups_nil, append_nil, if_pos (mem_eraseDups.mpr ha)]
  · have hsame : l'.removeAll l = l' := by
      rw [removeAll, filter_eq_self]
      intro x hx
      simpa [hall x hx] using ha
    have hone : l'.eraseDups = [a] := by
      match l', hall, (h a).mpr rfl with
      | x :: xs, hall, _ =>
        have hrest : xs.filter (fun b => !b == x) = [] := by
          rw [filter_eq_nil_iff]
          intro b hb
          simp [hall x (mem_cons_self ..), hall b (mem_cons_of_mem x hb)]
        rw [eraseDups_cons, hrest, eraseDups_nil, hall x (mem_cons_self ..)]
    rw [hsame, hone, if_neg (mt mem_eraseDups.mp ha)]

namespace Layout

lemma source?_of_loads (h : item.loads = true) : ∃ source, item.source? = some source := by
  cases item with
  | importDecl | exportAll => exact ⟨_, rfl⟩
  | exportNamed specs source =>
    cases source with
    | none => cases h
    | some source => exact ⟨_, rfl⟩
  | _ => cases h

/-- The sources that items load, whatever the numbers of their dependencies. -/
lemma requires_regionsOf (moduleId : String) (sources : List String) (items : List ModuleItem) :
    (((⟨.cjs, moduleId⟩ : Registration).regionsOf sources items).prologue.flatMap
      Node.requires).eraseDups = sourcesOf (items.filter ModuleItem.loads) := by
  induction items using reverseRecOn with
  | nil => rfl
  | append_singleton items item ih =>
    have hmem := mem_requires_contribution moduleId (dependencyOn sources (item.source?.getD "")) item
    set r : Registration := ⟨.cjs, moduleId⟩
    set d := dependencyOn sources (item.source?.getD "") with hd
    have hsplit : (r.regionsOf sources (items ++ [item])).prologue =
        (r.regionsOf sources items).prologue ++ (r.contribution d item).prologue := by
      simp [Registration.regionsOf, hd]
    rw [hsplit, flatMap_append, filter_append, filter_singleton]
    cases hl : item.loads with
    | false =>
      have hnone : (r.contribution d item).prologue.flatMap Node.requires = [] := by
        rw [eq_nil_iff_forall_not_mem]
        intro x hx
        rw [hmem, hl] at hx
        cases hx.1
      rw [hnone, append_nil, ih, cond_false, append_nil]
    | true =>
      obtain ⟨source, hs⟩ := source?_of_loads hl
      have hsource : d.source = source := by rw [hd, hs, getD_some, dependencyOn]
      simp only [hl, hsource, true_and] at hmem
      rw [eraseDups_append_of_mem_iff hmem, ih, cond_true, sourcesOf_concat, hs]

/-- **What a module loads.** In order of first occurrence, the sources that the prologue passes to
`require` are those of the declarations that load at all, and these are all dependencies of the module
unless it passes on an empty list of exports. -/
theorem required_sources (moduleId : String) (items : List ModuleItem) :
    let required := ((ofItems ⟨.cjs, moduleId⟩ items).regions.prologue.flatMap Node.requires).eraseDups
    required = sourcesOf (items.filter ModuleItem.loads) ∧
      ((∀ source, .exportNamed [] (some source) ∉ items) →
        required = (ofItems ⟨.amd, moduleId⟩ items).deps.map Dependency.source) := by
  intro required
  have hrequired : required = sourcesOf (items.filter ModuleItem.loads) := by
    simp only [required, ofItems_eq, requires_regionsOf]
  refine ⟨hrequired, fun hempty => ?_⟩
  rw [hrequired, ofItems_eq, map_source_dependenciesOn, sourcesOf, sourcesOf, filterMap_filter]
  congr 1
  refine filterMap_congr fun item hitem => ?_
  cases item with
  | exportNamed specs source =>
    cases source with
    | none => rfl
    | some source =>
      cases specs with
      | nil => exact absurd hitem (hempty source)
      | cons spec specs => rfl
  | _ => rfl

/-- An import after an export of all names loads the modules in this order. -/
theorem required_sources_import :
    let items : List ModuleItem := [.exportAll ⟨Units.ofString "y", none⟩,
      .importDecl [] ⟨Units.ofString "x", none⟩, .exportAll ⟨Units.ofString "y", none⟩]
    ((ofItems ⟨.cjs, "m"⟩ items).regions.prologue.flatMap Node.requires).eraseDups = ["y", "x"] := by
  intro items
  have hloads : ((ofItems ⟨.amd, "m"⟩ items).deps.map Dependency.source) = ["y", "x"] := by decide +kernel
  rw [← hloads]
  exact (required_sources "m" items).2 (by simp [items])

/-- An empty list of exports of another module makes it a dependency, but it is not loaded. -/
theorem required_sources_empty_list : ∃ parsed : Parsed ModuleItem,
    (parseModule "export \x7b\x7d from \"x\";").toOption = some parsed ∧
    (ofItems ⟨.cjs, "m"⟩ parsed.body).regions.prologue.flatMap Node.requires = [] ∧
    (ofItems ⟨.amd, "m"⟩ parsed.body).deps.map Dependency.source = ["x"] := by
  have hrun : (parseModule "export \x7b\x7d from \"x\";").toOption.map (fun parsed =>
      ((ofItems ⟨.cjs, "m"⟩ parsed.body).regions.prologue.flatMap Node.requires,
        (ofItems ⟨.amd, "m"⟩ parsed.body).deps.map Dependency.source)) = some ([], ["x"]) := by
    decide +kernel
  obtain ⟨parsed, hparsed, hboth⟩ := map_eq_some_iff.mp hrun
  exact ⟨parsed, hparsed, Prod.mk.inj hboth⟩

end Layout

end EcmaLower
