import EcmaLower.Module.Identifier
import EcmaLower.CommandLine.Input
import Mathlib.Tactic.Lemma
import Mathlib.Data.List.Basic

/-!
# Names, paths and directories

A path is cut at its slashes, and names without a slash come back when they are joined and cut. The parts
of a path below a directory are those of the directory and then the names, however the directory is
spelled.
-/

namespace EcmaLower

open List

variable {s path t : String} {l names : List String} {p : Char → Bool} {cs : List Char}

/-! ## Cutting and joining texts -/

section Segments

variable {c : Char} {sep : String}

lemma segmentsOf_ne_nil (p : Char → Bool) (cs : List Char) : segmentsOf p cs ≠ [] := by
  cases cs with
  | nil => simp [segmentsOf]
  | cons c cs =>
    rw [segmentsOf]
    split
    · simp
    · split <;> simp

lemma segmentsOf_of_forall (h : ∀ c ∈ cs, p c = false) : segmentsOf p cs = [cs] := by
  induction cs with
  | nil => rfl
  | cons c cs ih =>
    rw [segmentsOf, h c (by simp), ih fun d hd => h d (by simp [hd])]
    rfl

lemma segmentsOf_append (hc : p c = true) (as bs : List Char) :
    segmentsOf p (as ++ c :: bs) = segmentsOf p as ++ segmentsOf p bs := by
  induction as with
  | nil => simp [segmentsOf, hc]
  | cons a as ih =>
    rw [cons_append, segmentsOf, segmentsOf, ih]
    split
    · rfl
    · obtain ⟨first, rest, h⟩ := exists_cons_of_ne_nil (segmentsOf_ne_nil p as)
      rw [h]
      rfl

lemma segments_ne_nil (p : Char → Bool) (s : String) : segments p s ≠ [] := by
  simpa [segments] using segmentsOf_ne_nil p s.toList

lemma segments_of_notMem (h : c ∉ s.toList) : segments (· == c) s = [s] := by
  have hs : ∀ d ∈ s.toList, (d == c) = false := fun d hd => by
    rw [beq_eq_false_iff_ne]
    rintro rfl
    exact h hd
  rw [segments, segmentsOf_of_forall hs, map_singleton, String.ofList_toList]

lemma segments_append (hsep : sep.toList = [c]) (a b : String) :
    segments (· == c) (a ++ sep ++ b) = segments (· == c) a ++ segments (· == c) b := by
  have hc : (fun d : Char => d == c) c = true := beq_self_eq_true c
  simp only [segments, String.toList_append, hsep, append_assoc, singleton_append]
  rw [segmentsOf_append (p := fun d => d == c) hc, map_append]

lemma joinWith_cons (h : l ≠ []) : joinWith sep (s :: l) = s ++ sep ++ joinWith sep l := by
  cases l with
  | nil => exact absurd rfl h
  | cons => rfl

/-- Pieces without the separator come back when a text that was joined is cut. -/
lemma segments_joinWith (hsep : sep.toList = [c]) (hne : l ≠ []) (h : ∀ s ∈ l, c ∉ s.toList) :
    segments (· == c) (joinWith sep l) = l := by
  induction l with
  | nil => exact absurd rfl hne
  | cons s l ih =>
    have hs := segments_of_notMem (h s (by simp))
    rcases eq_or_ne l [] with rfl | hl
    · exact hs
    · rw [joinWith_cons hl, segments_append hsep, hs, ih hl fun t ht => h t (by simp [ht])]
      rfl

/-- The last piece of a text, and the text before it. -/
lemma joinWith_concat (h : l ≠ []) : joinWith sep (l ++ [s]) = joinWith sep l ++ sep ++ s := by
  induction l with
  | nil => exact absurd rfl h
  | cons t l ih =>
    rcases eq_or_ne l [] with rfl | hl
    · rfl
    · rw [cons_append, joinWith_cons (by simp), joinWith_cons hl, ih hl]
      simp only [String.append_assoc]

/-- Joining the pieces of a text gives the text back. -/
lemma joinWith_segments (hsep : sep.toList = [c]) (s : String) : joinWith sep (segments (· == c) s) = s := by
  have key : ∀ cs : List Char, joinWith sep ((segmentsOf (· == c) cs).map String.ofList) = String.ofList cs := by
    intro cs
    induction cs with
    | nil => rfl
    | cons d cs ih =>
      obtain ⟨first, rest, h⟩ := exists_cons_of_ne_nil (segmentsOf_ne_nil (· == c) cs)
      rw [segmentsOf]
      split
      next hd =>
        obtain rfl : d = c := eq_of_beq hd
        rw [map_cons, joinWith_cons (by simp [segmentsOf_ne_nil]), ih]
        apply String.toList_inj.mp
        simp [hsep]
      next hd =>
        rw [h] at ih ⊢
        rcases eq_or_ne rest [] with rfl | hr
        · simp only [map_cons, map_nil, joinWith] at ih ⊢
          rw [String.ofList_inj.mp ih]
        · rw [map_cons, joinWith_cons (by simpa using hr)] at ih ⊢
          apply String.toList_inj.mp
          have := congrArg String.toList ih
          simp only [String.toList_append, String.toList_ofList, cons_append] at this ⊢
          rw [this]
  rw [segments, key, String.ofList_toList]

lemma not_of_mem_segmentsOf {piece : List Char} (h : piece ∈ segmentsOf p cs) : ∀ c ∈ piece, p c = false := by
  induction cs generalizing piece with
  | nil => simp_all [segmentsOf]
  | cons d cs ih =>
    obtain ⟨first, rest, hrest⟩ := exists_cons_of_ne_nil (segmentsOf_ne_nil p cs)
    rw [segmentsOf] at h
    split at h
    · rcases mem_cons.mp h with rfl | h
      · simp
      · exact ih h
    next hd =>
      rw [hrest] at h ih
      rcases mem_cons.mp h with rfl | h
      · exact forall_mem_cons.mpr ⟨eq_false_of_ne_true hd, ih (by simp)⟩
      · exact ih (by simp [h])

/-- The pieces of a text hold no separator. -/
lemma not_of_mem_segments (h : t ∈ segments p s) : ∀ c ∈ t.toList, p c = false := by
  obtain ⟨cs, hcs, rfl⟩ := mem_map.mp h
  rw [String.toList_ofList]
  exact not_of_mem_segmentsOf hcs

lemma notMem_of_mem_segments (h : t ∈ segments (· == c) s) : c ∉ t.toList := by
  intro hc
  have := not_of_mem_segments h c hc
  simp at this

end Segments

/-! ## Names and parts -/

namespace Path

/-- A name that an entry of a directory can have. -/
structure IsName (s : String) : Prop where
  ne_empty : s ≠ ""
  ne_here : s ≠ "."
  ne_up : s ≠ ".."
  no_slash : '/' ∉ s.toList

instance (s : String) : Decidable (IsName s) :=
  decidable_of_iff (s ≠ "" ∧ s ≠ "." ∧ s ≠ ".." ∧ '/' ∉ s.toList)
    ⟨fun ⟨h₁, h₂, h₃, h₄⟩ => ⟨h₁, h₂, h₃, h₄⟩, fun h => ⟨h.1, h.2, h.3, h.4⟩⟩

lemma isAbsolute_iff : isAbsolute path = true ↔ ∃ cs, path.toList = '/' :: cs := by
  rw [isAbsolute, String.startsWith_string_iff]
  exact ⟨fun ⟨cs, h⟩ => ⟨cs, h.symm⟩, fun ⟨cs, h⟩ => ⟨cs, h.symm⟩⟩

lemma IsName.innerPart (h : IsName s) : innerPart? s = some (.name s) := by
  simp [innerPart?, h.ne_empty, h.ne_here, h.ne_up]

variable {names : List String}

lemma pieces_joinWith (hne : names ≠ []) (h : ∀ n ∈ names, IsName n) :
    pieces (joinWith "/" names) = names :=
  segments_joinWith rfl hne fun n hn => (h n hn).no_slash

lemma isAbsolute_append {a : String} (ha : a ≠ "") (b : String) : isAbsolute (a ++ b) = isAbsolute a := by
  obtain ⟨c, cs, hc⟩ := exists_cons_of_ne_nil (fun h => ha (String.toList_eq_nil_iff.mp h))
  rw [Bool.eq_iff_iff, isAbsolute_iff, isAbsolute_iff, String.toList_append, hc]
  simp

lemma IsName.not_isAbsolute (h : IsName s) : isAbsolute s = false := by
  rw [Bool.eq_false_iff, ne_eq, isAbsolute_iff]
  rintro ⟨cs, hcs⟩
  exact h.no_slash (by simp [hcs])

lemma isAbsolute_joinWith (h : ∀ n ∈ names, IsName n) : isAbsolute (joinWith "/" names) = false := by
  cases names with
  | nil => rfl
  | cons n rest =>
    have hn := h n (by simp)
    rcases eq_or_ne rest [] with rfl | hr
    · exact hn.not_isAbsolute
    · rw [joinWith_cons hr, String.append_assoc, isAbsolute_append hn.ne_empty]
      exact hn.not_isAbsolute

/-- A path below a directory goes through the pieces of the directory, an empty one at its end apart. -/
lemma pieces_join {dir : String} (hdir : dir ≠ "") : ∃ ps, ps ≠ [] ∧
    (pieces dir = ps ∨ pieces dir = ps ++ [""]) ∧
    ∀ rel, isAbsolute rel = false → pieces (join dir rel) = ps ++ pieces rel := by
  by_cases hslash : dir.endsWith "/" = true
  · have hends := hslash
    rw [String.endsWith_eq_endsWith_toSlice, String.Slice.endsWith_string_iff, String.copy_toSlice] at hends
    obtain ⟨cs, hcs⟩ := hends
    obtain rfl : dir = String.ofList cs ++ "/" := by
      apply String.toList_inj.mp
      rw [← hcs]
      simp
    refine ⟨pieces (String.ofList cs), segments_ne_nil _ _, .inr ?_, fun rel hrel => ?_⟩
    · have hlast : pieces (String.ofList cs ++ "/" ++ "") = pieces (String.ofList cs) ++ pieces "" :=
        segments_append rfl _ _
      rwa [String.append_empty] at hlast
    · rw [join, hrel, if_neg (by simp), if_pos hslash]
      exact segments_append rfl _ _
  · refine ⟨pieces dir, segments_ne_nil _ _, .inl rfl, fun rel hrel => ?_⟩
    rw [join, hrel, if_neg (by simp [hdir]), if_neg hslash]
    exact segments_append rfl _ _

lemma isAbsolute_join {dir rel : String} (hdir : dir ≠ "") (hrel : isAbsolute rel = false) :
    isAbsolute (join dir rel) = isAbsolute dir := by
  rw [join, hrel]
  simp only [Bool.false_or, decide_eq_true_eq, if_neg hdir]
  split
  · exact isAbsolute_append hdir _
  · rw [String.append_assoc]
    exact isAbsolute_append hdir _

lemma filterMap_innerPart (h : ∀ n ∈ names, IsName n) : names.filterMap innerPart? = names.map Part.name := by
  induction names with
  | nil => rfl
  | cons n names ih =>
    rw [filterMap_cons_some (h n (by simp)).innerPart, ih fun m hm => h m (by simp [hm])]
    rfl

/-- **The parts of a path below a directory** are those of the directory, and then the names. -/
theorem parts_join (dir : String) (hne : names ≠ []) (h : ∀ n ∈ names, IsName n) :
    parts (join dir (joinWith "/" names)) = parts dir ++ names.map Part.name := by
  have hrel := isAbsolute_joinWith h
  have hinner : (pieces (joinWith "/" names)).filterMap innerPart? = names.map Part.name := by
    rw [pieces_joinWith hne h, filterMap_innerPart h]
  rcases eq_or_ne dir "" with rfl | hdir
  · have hhead : (pieces (joinWith "/" names)).head? ≠ some "." := by
      rw [pieces_joinWith hne h]
      intro hn
      exact (h "." (mem_of_mem_head? hn)).ne_here rfl
    simp [parts, join, hrel, hinner, hhead]
    decide
  · obtain ⟨ps, hps, hdirs, hjoin⟩ := pieces_join hdir
    have hhead : (pieces dir).head? = ps.head? := by
      obtain ⟨q, qs, rfl⟩ := exists_cons_of_ne_nil hps
      rcases hdirs with hd | hd <;> simp [hd]
    have hdirInner : (pieces dir).filterMap innerPart? = ps.filterMap innerPart? := by
      rcases hdirs with hd | hd
      · rw [hd]
      · rw [hd, filterMap_append]
        exact append_nil _
    have hjoinHead : (ps ++ pieces (joinWith "/" names)).head? = ps.head? := by
      obtain ⟨q, qs, rfl⟩ := exists_cons_of_ne_nil hps
      rfl
    unfold parts
    rw [isAbsolute_join hdir hrel, hjoin _ hrel, hjoinHead, hhead, hdirInner, filterMap_append, hinner]
    split
    · rfl
    · split <;> rfl

lemma isName_of_mem_parts (h : Part.name s ∈ parts path) : IsName s := by
  have hinner : Part.name s ∈ (pieces path).filterMap innerPart? := by
    unfold parts at h
    split at h
    · simpa using h
    · split at h <;> simpa using h
  obtain ⟨piece, hpiece, hpart⟩ := mem_filterMap.mp hinner
  have hslash := notMem_of_mem_segments hpiece
  unfold innerPart? at hpart
  split at hpart
  · cases hpart
  next hidle =>
    split at hpart
    · cases hpart
    next hup =>
      cases hpart
      simp only [Bool.or_eq_true, decide_eq_true_eq, not_or] at hidle
      exact ⟨hidle.1, hidle.2, hup, hslash⟩

lemma isName_of_fileName? {name : String} (h : fileName? path = some name) : IsName name := by
  unfold fileName? at h
  split at h
  next s hlast =>
    cases h
    exact isName_of_mem_parts (mem_of_getLast? hlast)
  next => cases h

/-- A path goes through a directory and then through at least one name. -/
def Below (dir path : String) : Prop :=
  ∃ names, names ≠ [] ∧ (∀ n ∈ names, IsName n) ∧ parts path = parts dir ++ names.map Part.name

lemma below?_append (base rest : List Part) : below? (base ++ rest) base = some rest := by
  simp [below?]

@[simp] lemma names_map_name (names : List String) : Path.names (names.map Part.name) = names := by
  induction names with
  | nil => rfl
  | cons n names ih => rw [map_cons, Path.names, filterMap_cons]; exact congrArg _ ih

end Path

/-! ## Names in directories -/

namespace Shape

/-- Every name in a directory is a name that an entry can have. -/
inductive Proper : Shape → Prop
  | file : Proper .file
  | dir {entries : List (String × Shape)} : (∀ e ∈ entries, Path.IsName e.1) →
    (∀ e ∈ entries, Proper e.2) → Proper (.dir entries)

lemma proper_dir_iff {entries : List (String × Shape)} : (dir entries).Proper ↔
    (∀ e ∈ entries, Path.IsName e.1) ∧ ∀ e ∈ entries, e.2.Proper :=
  ⟨fun | .dir hnames hentries => ⟨hnames, hentries⟩, fun ⟨hnames, hentries⟩ => .dir hnames hentries⟩

lemma filesOf_eq_map (entries : List (String × Shape)) : filesOf entries = entries.map fun e => (e.1, e.2.files) := by
  induction entries with
  | nil => rfl
  | cons e entries ih => rw [filesOf, ih]; rfl

/-- A file below a directory is a file below one of its entries. -/
lemma mem_files_dir {entries : List (String × Shape)} :
    names ∈ (Shape.dir entries).files ↔ ∃ e ∈ entries, ∃ rest ∈ e.2.files, names = e.1 :: rest := by
  rw [files, mem_flatMap, byName]
  simp only [mem_mergeSort, filesOf_eq_map, mem_map]
  constructor
  · rintro ⟨_, ⟨e, he, rfl⟩, rest, hrest, rfl⟩
    exact ⟨e, he, rest, hrest, rfl⟩
  · rintro ⟨e, he, rest, hrest, rfl⟩
    exact ⟨_, ⟨e, he, rfl⟩, rest, hrest, rfl⟩

/-- The names that lead to a file are names that entries can have. -/
lemma Proper.isName {shape : Shape} (h : shape.Proper) (hm : names ∈ shape.files) : ∀ n ∈ names, Path.IsName n := by
  induction h generalizing names with
  | file =>
    obtain rfl : names = [] := by simpa [files] using hm
    exact nofun
  | dir hnames _ ih =>
    obtain ⟨e, he, rest, hrest, rfl⟩ := mem_files_dir.mp hm
    exact forall_mem_cons.mpr ⟨hnames e he, ih e he hrest⟩

end Shape

end EcmaLower
