import EcmaLower.Proofs.CommandLine.TreeInputs

/-!
# Names of modules

The name that a module gets from its file is never empty and holds no backslash. It is a sequence of segments with
slashes between them. A segment can be empty only in the name of a path below a base that holds a backslash or a part
called `.js`.

## Main results

* `moduleId_isModulePath` — which names are well formed.
-/

namespace EcmaLower

open List

/-- A well-formed name: segments that are not empty, with slashes between them and no backslash. -/
def IsModulePath (id : String) : Prop := ∀ s ∈ segments (· == '/') id, s ≠ "" ∧ '\\' ∉ s.toList

instance (id : String) : Decidable (IsModulePath id) := inferInstanceAs (Decidable (∀ s ∈ _, _))

variable {s t l : String} {ps names : List String}

lemma IsModulePath.spec (h : IsModulePath s) : s ≠ "" ∧ '\\' ∉ s.toList := by
  constructor
  · rintro rfl
    exact (h "" (mem_singleton_self "")).1 rfl
  · rw [← joinWith_segments (show "/".toList = ['/'] from rfl) s]
    exact notMem_joinWith (by decide) fun t ht => (h t ht).2

/-! ## Extensions -/

lemma stripJs_of_not (h : ∀ t, s ≠ t ++ ".js") : stripJs s = s := by
  refine if_neg fun hends => ?_
  rw [String.endsWith_eq_endsWith_toSlice, String.Slice.endsWith_string_iff, String.copy_toSlice] at hends
  obtain ⟨cs, hcs⟩ := hends
  refine h (String.ofList cs) (String.toList_inj.mp ?_)
  rw [String.toList_append, String.toList_ofList, hcs]

lemma stripJs_ne_empty (hne : s ≠ "") (hjs : s ≠ ".js") : stripJs s ≠ "" := by
  by_cases h : ∃ t, s = t ++ ".js"
  · obtain ⟨t, rfl⟩ := h
    rw [stripJs_append]
    rintro rfl
    exact hjs rfl
  · rwa [stripJs_of_not (not_exists.mp h)]

lemma mem_of_mem_stripJs {c : Char} (h : c ∈ (stripJs s).toList) : c ∈ s.toList := by
  unfold stripJs at h
  split at h
  · rw [String.toList_ofList] at h
    exact mem_of_mem_take h
  · exact h

/-- The extension of a path is that of its last name. -/
lemma stripJs_joinWith (h : '/' ∉ l.toList) :
    stripJs (joinWith "/" (ps ++ [l])) = joinWith "/" (ps ++ [stripJs l]) := by
  rcases eq_or_ne ps [] with rfl | hne
  · rfl
  rw [joinWith_concat hne, joinWith_concat hne]
  by_cases hl : ∃ t, l = t ++ ".js"
  · obtain ⟨t, rfl⟩ := hl
    rw [stripJs_append, ← String.append_assoc, stripJs_append]
  · rw [stripJs_of_not (not_exists.mp hl), stripJs_of_not]
    intro t ht
    have hlist : (joinWith "/" ps).toList ++ '/' :: l.toList = t.toList ++ ['.', 'j', 's'] := by
      simpa using congrArg String.toList ht
    -- Of two ends of one text, the longer one ends with the other.
    rcases suffix_or_suffix_of_suffix (suffix_append _ ('/' :: l.toList))
      (hlist ▸ suffix_append t.toList ['.', 'j', 's']) with hsuffix | hsuffix
    · have := hsuffix.subset (mem_cons_self ..)
      simp at this
    · rcases suffix_cons_iff.mp hsuffix with heq | ⟨cs, hcs⟩
      · cases (cons.inj heq).1
      · refine hl ⟨String.ofList cs, String.toList_inj.mp ?_⟩
        rw [String.toList_append, String.toList_ofList, ← hcs]
        rfl

/-! ## Names from paths -/

lemma nonEmpty?_eq_some_iff : nonEmpty? s = some t ↔ s ≠ "" ∧ s = t := by
  unfold nonEmpty?
  split <;> simp_all

/-- The name of a file without its directory is one segment. -/
lemma isModulePath_bareId (file : String) : IsModulePath ((bareId? file).getD defaultModuleName) := by
  cases hid : bareId? file with
  | none => decide
  | some id =>
    obtain ⟨hne, rfl⟩ := nonEmpty?_eq_some_iff.mp hid
    have hlast := getLast_mem (segments_ne_nil (fun c => c == '/' || c == '\\') file)
    rw [getLast?_eq_some_getLast (segments_ne_nil _ file), Option.getD_some] at hne ⊢
    generalize (segments _ file).getLast _ = name at hlast hne ⊢
    have hcut := fun c hc => not_of_mem_segments hlast c (mem_of_mem_stripJs hc)
    rw [Option.getD_some, IsModulePath, segments_of_notMem fun hc => Bool.noConfusion (hcut '/' hc)]
    exact forall_mem_singleton.mpr ⟨hne, fun hc => Bool.noConfusion (hcut '\\' hc)⟩

lemma notMem_forwardSlashes (s : String) : '\\' ∉ (forwardSlashes s).toList := by
  rw [forwardSlashes, String.toList_map, mem_map]
  rintro ⟨c, -, hc⟩
  split at hc <;> simp_all

/-- The names of a path below a base are names of the path. -/
lemma mem_parts_of_mem_names {base file n : String}
    (h : n ∈ Path.names ((Path.below? (Path.parts file) (Path.parts base)).getD (Path.parts file))) :
    Path.Part.name n ∈ Path.parts file := by
  obtain ⟨part, hpart, heq⟩ := mem_filterMap.mp h
  have hname : part = .name n := by
    cases part <;> simp_all
  unfold Path.below? at hpart
  split at hpart
  · exact hname ▸ mem_of_mem_drop hpart
  · exact hname ▸ hpart

/-- The name of a path below a base is not empty, and holds no backslash. It has no empty segments if no part of the path
holds a backslash or is called `.js`. -/
lemma relativeId?_spec {base file id : String} (h : relativeId? file base = some id) :
    id ≠ "" ∧ '\\' ∉ id.toList ∧
    ((∀ n, Path.Part.name n ∈ Path.parts file → '\\' ∉ n.toList ∧ n ≠ ".js") → IsModulePath id) := by
  unfold relativeId? at h
  dsimp only at h
  split at h
  · cases h
  obtain ⟨hne, rfl⟩ := nonEmpty?_eq_some_iff.mp h
  refine ⟨hne, fun hc => notMem_forwardSlashes _ (mem_of_mem_stripJs hc), fun hparts => ?_⟩
  have hnames := @mem_parts_of_mem_names base file
  generalize Path.names _ = names at hne hnames ⊢
  rw [forwardSlashes_eq_self (notMem_joinWith (by decide) fun n hn => (hparts n (hnames hn)).1)] at hne ⊢
  rcases eq_nil_or_concat' names with rfl | ⟨qs, l, rfl⟩
  · exact absurd rfl hne
  have hname : ∀ n ∈ qs ++ [l], Path.IsName n := fun n hn => Path.isName_of_mem_parts (hnames hn)
  have hl := hname l mem_concat_self
  rw [stripJs_joinWith hl.no_slash, IsModulePath, segments_joinWith rfl (by simp) ?_]
  · rw [forall_mem_append, forall_mem_singleton]
    obtain ⟨hback, hjs⟩ := hparts l (hnames mem_concat_self)
    refine ⟨fun n hn => ?_, stripJs_ne_empty hl.ne_empty hjs, fun hc => hback (mem_of_mem_stripJs hc)⟩
    have hmem := mem_append_left [l] hn
    exact ⟨(hname n hmem).ne_empty, (hparts n (hnames hmem)).1⟩
  · rw [forall_mem_append, forall_mem_singleton]
    exact ⟨fun n hn => (hname n (mem_append_left _ hn)).no_slash, fun hc => hl.no_slash (mem_of_mem_stripJs hc)⟩

/-- **Which names are well formed.** A name that the options give is used as it is. Any other name is not empty and
holds no backslash. It is a sequence of segments that are not empty if there is no base, or if no part of the path holds
a backslash or is called `.js`. -/
theorem moduleId_isModulePath (unit : SourceUnit) (options : CompileOptions) :
    (∀ name ∈ options.moduleName, name ≠ "" → moduleId unit options = name) ∧
    (options.moduleName.getD "" = "" → moduleId unit options ≠ "" ∧ '\\' ∉ (moduleId unit options).toList ∧
      (unit.basePath.or options.basePath = none ∨
          (∀ n, Path.Part.name n ∈ Path.parts unit.fileName → '\\' ∉ n.toList ∧ n ≠ ".js") →
        IsModulePath (moduleId unit options))) := by
  constructor
  · intro name hname hne
    simp [moduleId, Option.mem_def.mp hname, nonEmpty?, hne]
  intro h
  have hname : options.moduleName.bind nonEmpty? = none := by
    cases hname : options.moduleName with
    | none => rfl
    | some name =>
      rw [hname] at h
      exact if_pos h
  simp only [moduleId, hname]
  cases hid : (unit.basePath.or options.basePath).bind (relativeId? unit.fileName) with
  | none =>
    have hbare := isModulePath_bareId unit.fileName
    exact ⟨hbare.spec.1, hbare.spec.2, fun _ => hbare⟩
  | some id =>
    obtain ⟨base, hbase, hid⟩ := Option.bind_eq_some_iff.mp hid
    obtain ⟨hne, hback, hpath⟩ := relativeId?_spec hid
    refine ⟨hne, hback, fun hor => hpath (hor.resolve_left fun hnone => ?_)⟩
    rw [hbase] at hnone
    cases hnone

theorem moduleId_isModulePath_dots :
    let unit : SourceUnit := ⟨"", "/srv/./app//../post.js", some "/srv/"⟩
    moduleId unit {} = "app/post" ∧ IsModulePath (moduleId unit {}) := by
  refine ⟨by decide +kernel, ((moduleId_isModulePath _ {}).2 rfl).2.2 (.inr fun n hn => ?_)⟩
  have hparts : Path.parts "/srv/./app//../post.js" = [.root, .name "srv", .name "app", .up, .name "post.js"] := by
    decide +kernel
  rw [hparts] at hn
  simp only [mem_cons, reduceCtorEq, Path.Part.name.injEq, not_mem_nil, or_false, false_or] at hn
  rcases hn with rfl | rfl | rfl <;> decide

/-- Two backslashes in a path leave an empty segment, and so does a file called `.js`. -/
theorem moduleId_empty_segment :
    moduleId ⟨"", "a\\\\b.js", some "src"⟩ {} = "a//b" ∧ ¬IsModulePath "a//b" ∧
    moduleId ⟨"", "a/.js", some "src"⟩ {} = "a/" ∧ ¬IsModulePath "a/" := by
  decide +kernel

end EcmaLower
