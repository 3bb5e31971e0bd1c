import EcmaLower.Proofs.CommandLine.TreeInputs
import Mathlib

/-!
# The order of a tree

The scripts below a directory are found by a walk that sorts the entries of one directory at a time. This
module shows that the walk is complete, and that sorting the directories sorts the whole list: the names
that lead to the scripts increase lexicographically. Paths as texts need not increase with them, since a
slash sorts behind a dot: `a/z.js` comes before `a.js`.

A strictly increasing list is determined by its members. So the inputs of a tree depend on the files that
are there and not on the order in which a directory lists its entries.

## Main results

* `Shape.pairwise_files` — the files below a directory, in order.
* `FileTree.mem_files_shape` — they are all the files.
* `FileTree.find_join` — a path below a directory leads where the names lead from the directory.
* `CommandLine.tree_enumerated` — the inputs of a tree.
-/

namespace EcmaLower

open List

variable {n : String} {names : List String} {l : List α} {α β ε : Type} {g : α → Except ε β}

/-! ## Order -/

/-- A list whose keys strictly increase is determined by its members. -/
lemma eq_of_pairwise_lt {α β : Type} [LinearOrder β] {key : α → β} {l l' : List α}
    (h : l.Pairwise (key · < key ·)) (h' : l'.Pairwise (key · < key ·)) (hmem : ∀ a, a ∈ l ↔ a ∈ l') :
    l = l' := by
  have hne : ∀ {a b}, key a < key b → a ≠ b := fun hlt heq => hlt.ne (congrArg key heq)
  have hperm : l.Perm l' := (perm_ext_iff_of_nodup (h.imp hne) (h'.imp hne)).mpr hmem
  exact hperm.eq_of_pairwise (fun _ _ _ _ hab hba => absurd (hab.trans hba) (lt_irrefl _)) h h'

/-- Where a name is given once, an entry is what the name leads to. -/
lemma lookup_eq_some_iff_mem {entries : List (String × α)} (h : (entries.map Prod.fst).Nodup) {a : α} :
    entries.lookup n = some a ↔ (n, a) ∈ entries := by
  induction entries with
  | nil => simp
  | cons e entries ih =>
    obtain ⟨m, b⟩ := e
    obtain ⟨hm, hrest⟩ := nodup_cons.mp h
    rcases eq_or_ne n m with rfl | hne
    · have hnot : (n, a) ∉ entries := fun hn => hm (mem_map.mpr ⟨_, hn, rfl⟩)
      simp [hnot, eq_comm]
    · simp [lookup_cons, beq_false_of_ne hne, ih hrest, hne]

namespace Shape

/-- No directory has two entries of one name. -/
inductive Distinct : Shape → Prop
  | file : Distinct .file
  | dir {entries : List (String × Shape)} : (entries.map Prod.fst).Nodup →
    (∀ e ∈ entries, Distinct e.2) → Distinct (.dir entries)

lemma distinct_dir_iff {entries : List (String × Shape)} : (dir entries).Distinct ↔
    (entries.map Prod.fst).Nodup ∧ ∀ e ∈ entries, e.2.Distinct :=
  ⟨fun | .dir hnodup hentries => ⟨hnodup, hentries⟩, fun ⟨hnodup, hentries⟩ => .dir hnodup hentries⟩

lemma mem_files_file : names ∈ file.files ↔ names = [] := by
  rw [files, mem_singleton]

/-- Different names are sorted strictly. -/
lemma pairwise_byName {l : List (String × α)} (h : (l.map Prod.fst).Nodup) : (byName l).Pairwise (·.1 < ·.1) := by
  have hle : (byName l).Pairwise fun a b => decide (a.1 ≤ b.1) = true :=
    pairwise_mergeSort (fun a b c hab hbc => by simp only [decide_eq_true_eq] at *; exact hab.trans hbc)
      (fun a b => by simpa using le_total a.1 b.1) l
  have hne : (byName l).Pairwise (·.1 ≠ ·.1) := by
    have hperm : (byName l).Perm l := mergeSort_perm ..
    exact pairwise_map.mp (((hperm.map Prod.fst).nodup_iff).mpr h)
  exact hle.imp₂ (fun a b hab hne => lt_of_le_of_ne (of_decide_eq_true hab) hne) hne

/-- **The files below a directory are listed in the order of the names that lead to them.** -/
lemma pairwise_files {shape : Shape} (h : shape.Distinct) : shape.files.Pairwise (· < ·) := by
  induction h with
  | file => simp [files]
  | @dir entries hnodup _ ih =>
    have hfst : (filesOf entries).map Prod.fst = entries.map Prod.fst := by
      rw [filesOf_eq_map, map_map]
      rfl
    rw [files, pairwise_flatMap]
    constructor
    · rintro ⟨n, fs⟩ hn
      obtain ⟨e, he, ⟨⟩⟩ := mem_map.mp (filesOf_eq_map entries ▸ mem_mergeSort.mp hn)
      exact pairwise_map.mpr ((ih e he).imp fun h => cons_lt_cons_iff.mpr (.inr ⟨rfl, h⟩))
    · refine (pairwise_byName (hfst ▸ hnodup)).imp fun hlt x hx y hy => ?_
      obtain ⟨xs, -, rfl⟩ := mem_map.mp hx
      obtain ⟨ys, -, rfl⟩ := mem_map.mp hy
      exact cons_lt_cons_iff.mpr (.inl hlt)

end Shape

namespace FileTree

variable {t d e : FileTree} {path : String} {here : List String} {entries : List (String × FileTree)}

lemma nodup_of_distinct_shape (h : (dir entries).shape.Distinct) : (entries.map Prod.fst).Nodup := by
  rw [shape, shapes_eq_map, Shape.distinct_dir_iff, map_map] at h
  exact h.1

lemma distinct_shape_of_mem (h : (dir entries).shape.Distinct) (he : (n, e) ∈ entries) : e.shape.Distinct := by
  rw [shape, shapes_eq_map, Shape.distinct_dir_iff] at h
  exact h.2 (n, e.shape) (mem_map.mpr ⟨(n, e), he, rfl⟩)

lemma distinct_shape_of_get (h : t.shape.Distinct) (hd : t.get names = .ok d) : d.shape.Distinct := by
  induction names generalizing t with
  | nil =>
    cases hd
    exact h
  | cons n names ih =>
    obtain ⟨entries, e, rfl, he, hget⟩ := exists_of_get_cons hd
    exact ih (distinct_shape_of_mem h ((lookup_eq_some_iff_mem (nodup_of_distinct_shape h)).mp he)) hget

/-- **The files that are listed are the files that names lead to.** -/
lemma mem_files_shape (h : d.shape.Distinct) : names ∈ d.shape.files ↔ ∃ c, d.get names = .ok (.file c) := by
  induction names generalizing d with
  | nil =>
    cases d with
    | file c => simp [shape, Shape.files, get]
    | dir entries => simp [shape, Shape.mem_files_dir, get]
  | cons n names ih =>
    cases d with
    | file c => simp [shape, Shape.files, get_cons, child, bind, Except.bind]
    | dir entries =>
      have hmem : ∀ e, entries.lookup n = some e ↔ (n, e) ∈ entries := fun e =>
        lookup_eq_some_iff_mem (nodup_of_distinct_shape h)
      constructor
      · intro hfile
        rw [shape, shapes_eq_map, Shape.mem_files_dir] at hfile
        obtain ⟨_, hentry, rest, hrest, heq⟩ := hfile
        obtain ⟨⟨m, e⟩, he, rfl⟩ := mem_map.mp hentry
        cases heq
        rw [get_dir_cons ((hmem e).mpr he)]
        exact (ih (distinct_shape_of_mem h he)).mp hrest
      · rintro ⟨c, hc⟩
        obtain ⟨_, e, ⟨⟩, he, hget⟩ := exists_of_get_cons hc
        rw [hmem] at he
        rw [shape, shapes_eq_map, Shape.mem_files_dir]
        exact ⟨(n, e.shape), mem_map.mpr ⟨(n, e), he, rfl⟩, names,
          (ih (distinct_shape_of_mem h he)).mpr ⟨c, hget⟩, rfl⟩

/-! ## Paths below a directory -/

/-- Names lead to what they lead to from the top. -/
lemma leads_of_get (hnames : ∀ n ∈ names, Path.IsName n) (h : t.get (here.reverse ++ names) = .ok e) :
    Leads t here names (here.reverse ++ names) := by
  induction names generalizing here with
  | nil => simpa using Leads.done
  | cons n names ih =>
    have hn := hnames n (by simp)
    have hidle : Path.isIdle n = false := by simp [Path.isIdle, hn.ne_empty, hn.ne_here]
    have hsplit : here.reverse ++ n :: names = (n :: here).reverse ++ names := by simp
    rw [hsplit] at h ⊢
    have hnext := h
    rw [get_append] at hnext
    obtain ⟨e', he', -⟩ := exists_of_bind_ok hnext
    exact .name (by simpa using he') hidle hn.ne_up (ih (fun m hm => hnames m (by simp [hm])) h)

lemma Leads.eq_of_idle {piece : String} {loc : List String} (h : Leads t here [piece] loc)
    (hidle : Path.isIdle piece = true) : loc = here.reverse := by
  cases h with
  | idle _ _ hdone =>
    cases hdone
    rfl
  | up => cases hidle
  | name _ hname => cases hidle.symm.trans hname

/-- **A path below a directory leads where the names lead from the directory.** -/
lemma find_join (hdir : t.find path = .ok d) (hne : names ≠ [])
    (hnames : ∀ n ∈ names, Path.IsName n) (hget : d.get names = .ok e) :
    t.find (Path.join path (joinWith "/" names)) = .ok e := by
  obtain ⟨loc, hloc, hplace⟩ := exists_of_bind_ok hdir
  unfold locate at hloc
  split at hloc
  · cases hloc
  next hpath =>
    simp only [Bool.or_eq_true, decide_eq_true_eq, not_or, Bool.not_eq_true] at hpath
    obtain ⟨ps, -, hpieces, hjoin⟩ := Path.pieces_join hpath.1
    have hrel := Path.isAbsolute_joinWith hnames
    have hleads : Leads t [] ps loc := by
      have hfollow := follow_eq_ok_iff.mp hloc
      rcases hpieces with heq | heq
      · rwa [heq] at hfollow
      · rw [heq] at hfollow
        obtain ⟨mid, hmid, hrest⟩ := hfollow.exists_of_append
        rwa [hrest.eq_of_idle rfl, reverse_reverse]
    have hall : t.get (loc ++ names) = .ok e := by
      rw [get_append, hplace]
      exact hget
    have hfound : t.locate (Path.join path (joinWith "/" names)) = .ok (loc ++ names) := by
      have habs : Path.isAbsolute (Path.join path (joinWith "/" names)) = false := by
        rw [Path.isAbsolute_join hpath.1 hrel, hpath.2]
      have hempty : Path.join path (joinWith "/" names) ≠ "" := by
        intro heq
        have hparts := hjoin _ hrel
        rw [heq, Path.pieces_joinWith hne hnames] at hparts
        have hlast := congrArg getLast? hparts
        rw [getLast?_append_of_ne_nil _ hne] at hlast
        have hmem := mem_of_getLast? hlast.symm
        exact (hnames "" hmem).ne_empty rfl
      rw [locate, if_neg (by simp [habs, hempty]), hjoin _ hrel, Path.pieces_joinWith hne hnames]
      refine follow_eq_ok_iff.mpr (hleads.append ?_)
      have hrest : Leads t loc.reverse names (loc.reverse.reverse ++ names) :=
        leads_of_get hnames (by simpa using hall)
      simpa using hrest
    rw [find, hfound]
    exact hall

end FileTree

namespace CommandLine

variable {t : FileTree} {path input : String} {entries : List (String × FileTree)}

/-! ## Scripts -/

/-- The last of the names ends with `.js`, behind something else. -/
def ScriptName (names : List String) : Prop :=
  ∃ init stem, stem ≠ "" ∧ names = init ++ [stem ++ ".js"]

/-- A file is compiled if its name has a dot behind its first character and ends with that of the
extension. -/
lemma isScript_iff : isScript n = true ↔ ∃ stem, stem ≠ "" ∧ n = stem ++ ".js" := by
  refine ⟨exists_stem, ?_⟩
  rintro ⟨stem, hstem, rfl⟩
  have hsegments : segments (· == '.') (stem ++ ".js") = segments (· == '.') stem ++ ["js"] := by
    have happend := segments_append (show ".".toList = ['.'] from rfl) stem "js"
    rwa [String.append_assoc] at happend
  obtain ⟨init, before, hparts⟩ := eq_nil_or_concat (segments (· == '.') stem) |>.resolve_left
    (segments_ne_nil _ _)
  have hext : Path.extension? (stem ++ ".js") = some "js" := by
    unfold Path.extension?
    rw [hsegments, hparts]
    simp only [reverse_append, reverse_cons, reverse_nil, nil_append, cons_append, concat_eq_append]
    rw [if_neg]
    simp only [Bool.and_eq_true, decide_eq_true_eq, isEmpty_reverse, List.isEmpty_iff, not_and]
    rintro rfl rfl
    have hjoin := joinWith_segments (show ".".toList = ['.'] from rfl) stem
    rw [hparts] at hjoin
    exact hstem hjoin.symm
  exact decide_eq_true hext

lemma scriptName_iff : ScriptName names ↔ ∃ name, names.getLast? = some name ∧ isScript name = true := by
  constructor
  · rintro ⟨init, stem, hstem, rfl⟩
    exact ⟨_, getLast?_concat, isScript_iff.mpr ⟨stem, hstem, rfl⟩⟩
  · rintro ⟨name, hlast, hjs⟩
    obtain ⟨init, rfl⟩ := getLast?_eq_some_iff.mp hlast
    obtain ⟨stem, hstem, rfl⟩ := isScript_iff.mp hjs
    exact ⟨init, stem, hstem, rfl⟩

instance (names : List String) : Decidable (ScriptName names) :=
  decidable_of_iff ((names.getLast?.map isScript).getD false = true) <| by
    rw [scriptName_iff]
    cases names.getLast? <;> simp

lemma mem_scriptsIn_iff {shape : Shape} : names ∈ scriptsIn shape ↔ names ∈ shape.files ∧ ScriptName names := by
  rw [mem_scriptsIn, scriptName_iff]

/-! ## Inputs -/

/-- The inputs of the tree at a path. -/
def treeInputs (input path : String) (t : FileTree) : Except Failure (List Input) :=
  ((Root.ofPath (.ofTree input) true path >>= Root.inputs (.ofTree input)).run t).1

/-- The input of a file below a directory, from its content. -/
def inputOf (dir : String) (names : List String) (content : ByteArray) : Except Failure Input :=
  let path := Path.join dir (joinWith "/" names)
  match String.fromUTF8? content with
  | some text =>
    .ok { unit := { text, fileName := path, basePath := some dir }, outputName := joinWith "/" names }
  | none => .error { message := "failed to read " ++ path, causes := [FileError.notText.message] }

lemma run_readBelow {c : ByteArray} (h : t.find (Path.join path (joinWith "/" names)) = .ok (.file c)) :
    (readBelow (.ofTree input) path names).run t = (inputOf path names c, t) := by
  have hread : (FileAccess.ofTree input).readText (Path.join path (joinWith "/" names)) t =
      (match String.fromUTF8? c with
        | some s => .ok s
        | none => .error .notText, t) := by
    change (t.readText _, t) = _
    rw [FileTree.readText, h]
    rfl
  unfold readBelow inputOf
  cases htext : String.fromUTF8? c with
  | some text =>
    rw [htext] at hread
    rw [run_bind_of_ok (run_orFail_ok hread _)]
    rfl
  | none =>
    rw [htext] at hread
    rw [run_bind_of_error (run_orFail_error hread _)]

/-- Steps that leave the state as it is can be taken without it. -/
lemma run_mapM_of_forall {σ ε α β : Type} {f : α → ExceptT ε (StateM σ) β} {g : α → Except ε β} {s : σ}
    {l : List α} (h : ∀ a ∈ l, (f a).run s = (g a, s)) : (l.mapM f).run s = (l.mapM g, s) := by
  induction l with
  | nil => rfl
  | cons a l ih =>
    have ha := h a (by simp)
    have hl := ih fun b hb => h b (by simp [hb])
    rw [mapM_cons, mapM_cons]
    cases hg : g a with
    | error e =>
      rw [run_bind_of_error (ha.trans (by rw [hg]))]
      rfl
    | ok b =>
      rw [run_bind_of_ok (ha.trans (by rw [hg]))]
      cases hbs : l.mapM g with
      | error e =>
        rw [run_bind_of_error (hl.trans (by rw [hbs]))]
        rfl
      | ok bs =>
        rw [run_bind_of_ok (hl.trans (by rw [hbs]))]
        rfl

lemma exists_of_mapM {ε α β : Type} {g : α → Except ε β} {l : List α} (h : ∀ a ∈ l, ∃ b, g a = .ok b) :
    ∃ bs, l.mapM g = .ok bs ∧ Forall₂ (fun a b => g a = .ok b) l bs := by
  induction l with
  | nil => exact ⟨[], rfl, .nil⟩
  | cons a l ih =>
    obtain ⟨b, hb⟩ := h a (by simp)
    obtain ⟨bs, hbs, hall⟩ := ih fun c hc => h c (by simp [hc])
    refine ⟨b :: bs, ?_, .cons hb hall⟩
    rw [mapM_cons, hb, hbs]
    rfl

/-- The content of the file that names lead to. -/
def contentAt (d : FileTree) (names : List String) : ByteArray :=
  match d.get names with
  | .ok (.file c) => c
  | _ => .empty

/-- `AreScripts d files`: these are the scripts below a directory with their contents, in order. -/
structure AreScripts (d : FileTree) (files : List (List String × ByteArray)) : Prop where
  mem_iff (names : List String) (c : ByteArray) : (names, c) ∈ files ↔ d.get names = .ok (.file c) ∧ ScriptName names
  increasing : files.Pairwise (·.1 < ·.1)

/-- The scripts of a tree are read one after the other, in order. -/
lemma exists_areScripts (input : String) (hproper : t.shape.Proper) (hdistinct : t.shape.Distinct)
    (hdir : t.find path = .ok (.dir entries)) : ∃ files, AreScripts (.dir entries) files ∧
      treeInputs input path t = files.mapM fun f => inputOf path f.1 f.2 := by
  obtain ⟨loc, -, hget⟩ := FileTree.exists_of_bind_ok hdir
  have hdistinct := FileTree.distinct_shape_of_get hdistinct hget
  have hproper := FileTree.proper_shape_of_get hproper hget
  have hcontent : ∀ names c, (FileTree.dir entries).get names = .ok (.file c) →
      contentAt (.dir entries) names = c := fun names c hc => by rw [contentAt, hc]
  let shape := (FileTree.dir entries).shape
  refine ⟨(scriptsIn shape).map fun names => (names, contentAt (.dir entries) names), ⟨?_, ?_⟩, ?_⟩
  · intro names c
    simp only [mem_map, Prod.mk.injEq, shape, mem_scriptsIn_iff, FileTree.mem_files_shape hdistinct]
    constructor
    · rintro ⟨_, ⟨⟨c', hc'⟩, hscript⟩, rfl, rfl⟩
      exact ⟨by rw [hcontent _ _ hc', hc'], hscript⟩
    · rintro ⟨hc, hscript⟩
      exact ⟨names, ⟨⟨c, hc⟩, hscript⟩, rfl, hcontent _ _ hc⟩
  · exact pairwise_map.mpr ((Shape.pairwise_files hdistinct).filter _)
  · have hroot : (Root.ofPath (.ofTree input) true path).run t = (.ok (.tree path shape), t) := by
      have hshape : (FileAccess.ofTree input).directory? path t = (some shape, t) := by
        rw [FileAccess.directory?_ofTree, hdir]
      unfold Root.ofPath
      rw [if_pos rfl, run_bind_of_ok (run_liftM hshape)]
      rfl
    rw [treeInputs, run_bind_of_ok hroot, Root.inputs, mapM_map]
    refine congrArg Prod.fst (run_mapM_of_forall fun names hnames => ?_)
    obtain ⟨hfile, hscript⟩ := mem_scriptsIn_iff.mp hnames
    obtain ⟨c, hc⟩ := (FileTree.mem_files_shape hdistinct).mp hfile
    have hne : names ≠ [] := by
      obtain ⟨init, stem, -, rfl⟩ := hscript
      simp
    rw [Function.comp_apply, hcontent _ _ hc]
    exact run_readBelow (FileTree.find_join hdir hne (hproper.isName hfile) hc)

/-- **The inputs of a tree.** They are the files below the directory, at any depth, whose names end with
`.js` behind something else: each of them once, in the strictly increasing order of the names that lead to
them from the directory, and nothing else. If all are texts, all are read; they are read in order, so that
otherwise the first that is no text stops the run. A tree with the same files gives the same inputs, in
whatever order its directories list their entries. -/
theorem tree_enumerated (hproper : t.shape.Proper) (hdistinct : t.shape.Distinct)
    (hdir : t.find path = .ok (.dir entries)) :
    ∃ files : List (List String × ByteArray),
      (∀ names c, (names, c) ∈ files ↔
        (FileTree.dir entries).get names = .ok (.file c) ∧ ScriptName names) ∧
      files.Pairwise (·.1 < ·.1) ∧
      treeInputs input path t = files.mapM (fun f => inputOf path f.1 f.2) ∧
      ((∀ f ∈ files, (String.fromUTF8? f.2).isSome) → ∃ inputs, treeInputs input path t = .ok inputs ∧
        Forall₂ (fun f i => inputOf path f.1 f.2 = .ok i) files inputs) ∧
      ∀ t' entries', t'.shape.Proper → t'.shape.Distinct → t'.find path = .ok (.dir entries') →
        (∀ names c, (FileTree.dir entries').get names = .ok (.file c) ↔
          (FileTree.dir entries).get names = .ok (.file c)) →
        treeInputs input path t' = treeInputs input path t := by
  obtain ⟨files, hfiles, hinputs⟩ := exists_areScripts input hproper hdistinct hdir
  refine ⟨files, hfiles.mem_iff, hfiles.increasing, hinputs, fun htext => ?_, ?_⟩
  · rw [hinputs]
    refine exists_of_mapM fun f hf => ?_
    obtain ⟨text, htext⟩ := Option.isSome_iff_exists.mp (htext f hf)
    exact ⟨_, by rw [inputOf, htext]⟩
  · intro t' entries' hproper' hdistinct' hdir' hsame
    obtain ⟨files', hfiles', hinputs'⟩ := exists_areScripts input hproper' hdistinct' hdir'
    have heq : files' = files := eq_of_pairwise_lt hfiles'.increasing hfiles.increasing fun f => by
      rw [hfiles'.mem_iff, hfiles.mem_iff, hsame]
    rw [hinputs', heq, hinputs]

/-- A file and a directory share a stem, a directory is named like a script, and names only look like those
of scripts. -/
theorem tree_enumerated_sharedStem :
    let src : FileTree := .dir [("x.js", .dir [("b.js", .file "3".toUTF8)]), (".js", .file "".toUTF8),
      ("a.js", .file "2".toUTF8), ("a.js.txt", .file "".toUTF8), ("a", .dir [("z.js", .file "1".toUTF8)])]
    ∃ inputs, treeInputs "" "./src/" (.dir [("src", src)]) = .ok inputs ∧
      inputs.map (fun i => (i.outputName, i.unit.text)) =
        [("a/z.js", "1"), ("a.js", "2"), ("x.js/b.js", "3")] := by
  intro src
  have hproper : (FileTree.dir [("src", src)]).shape.Proper := by
    simp only [src, FileTree.shape, FileTree.shapes, Shape.proper_dir_iff, forall_mem_cons,
      Shape.Proper.file, not_mem_nil, IsEmpty.forall_iff, implies_true, and_true]
    decide
  have hdistinct : (FileTree.dir [("src", src)]).shape.Distinct := by
    simp only [src, FileTree.shape, FileTree.shapes, Shape.distinct_dir_iff, forall_mem_cons,
      Shape.Distinct.file, not_mem_nil, IsEmpty.forall_iff, implies_true, and_true]
    decide
  have hdir : (FileTree.dir [("src", src)]).find "./src/" = .ok src := by cbv
  obtain ⟨files, hmem, hincreasing, hinputs, -⟩ := @tree_enumerated _ _ "" _ hproper hdistinct hdir
  have hfiles : files =
      [(["a", "z.js"], "1".toUTF8), (["a.js"], "2".toUTF8), (["x.js", "b.js"], "3".toUTF8)] := by
    have hsrc : src.shape.Distinct := FileTree.distinct_shape_of_mem hdistinct (n := "src") (by simp)
    refine eq_of_pairwise_lt hincreasing (by decide) fun file => ?_
    obtain ⟨names, c⟩ := file
    rw [hmem]
    constructor
    · rintro ⟨hc, hscript⟩
      have hnames : names ∈ src.shape.files := (FileTree.mem_files_shape hsrc).mpr ⟨c, hc⟩
      simp only [src, FileTree.shape, FileTree.shapes, Shape.mem_files_dir, Shape.mem_files_file,
        exists_mem_cons_iff, not_mem_nil, false_and, exists_false, or_false, ↓existsAndEq, true_and] at hnames
      rcases hnames with rfl | rfl | rfl | rfl | rfl
      all_goals cases hc
      all_goals first | exact absurd hscript (by decide) | simp
    · simp only [mem_cons, Prod.mk.injEq, not_mem_nil, or_false]
      rintro (⟨rfl, rfl⟩ | ⟨rfl, rfl⟩ | ⟨rfl, rfl⟩)
      all_goals exact ⟨rfl, by decide⟩
  rw [hfiles] at hinputs
  exact ⟨_, hinputs.trans (by cbv), by cbv⟩

end CommandLine

end EcmaLower
