import EcmaLower.Proofs.Files.Paths

/-!
# Changes of a tree of files

Writing a file and making directories leave the rest of a tree in place: a path that could be followed
before leads to the same place after. So a text that was written can be read, and texts elsewhere can be
read as before.
-/

namespace EcmaLower

open List

variable {path name text n other : String} {e d : FileTree} {ns loc place here pieces names : List String}
  {P : List String → Prop}

namespace FileTree

variable {t t' : FileTree}

/-! ## Places -/

lemma get_cons (t : FileTree) (n : String) (ns : List String) : t.get (n :: ns) = t.child n >>= (·.get ns) := rfl

lemma get_append (t : FileTree) (ns ms : List String) : t.get (ns ++ ms) = t.get ns >>= (·.get ms) := by
  induction ns generalizing t with
  | nil => rfl
  | cons n ns ih =>
    rw [cons_append, get_cons, get_cons]
    cases t.child n with
    | error => rfl
    | ok e => exact ih e

lemma get_dir_cons {entries : List (String × FileTree)} (h : entries.lookup n = some e) (ns : List String) :
    (dir entries).get (n :: ns) = e.get ns := by
  simp [get_cons, child, h, bind, Except.bind]

lemma get_dir_cons_of_none {entries : List (String × FileTree)} (h : entries.lookup n = none)
    (ns : List String) : (dir entries).get (n :: ns) = .error .notFound := by
  simp [get_cons, child, h, bind, Except.bind]

/-- The first name of a place leads to an entry of a directory. -/
lemma exists_of_get_cons (h : t.get (n :: ns) = .ok d) :
    ∃ entries e, t = dir entries ∧ entries.lookup n = some e ∧ e.get ns = .ok d := by
  cases t with
  | file c => cases h
  | dir entries =>
    cases hn : entries.lookup n with
    | none =>
      rw [get_dir_cons_of_none hn] at h
      cases h
    | some e => exact ⟨entries, e, rfl, hn, (get_dir_cons hn ns).symm.trans h⟩

lemma lookup_setEntry_self (name : String) (e : FileTree) (entries : List (String × FileTree)) :
    (setEntry name e entries).lookup name = some e := by
  induction entries with
  | nil => rw [setEntry, lookup_cons_self]
  | cons first entries ih =>
    obtain ⟨m, old⟩ := first
    rw [setEntry]
    split
    next h => rw [h, lookup_cons_self]
    next h => rw [lookup_cons, beq_false_of_ne (Ne.symm h), ih]

lemma lookup_setEntry_of_ne (h : n ≠ name) (e : FileTree) (entries : List (String × FileTree)) :
    (setEntry name e entries).lookup n = entries.lookup n := by
  induction entries with
  | nil => rw [setEntry, lookup_cons, beq_false_of_ne h]
  | cons first entries ih =>
    obtain ⟨m, old⟩ := first
    rw [setEntry]
    split
    next hm => rw [lookup_cons, lookup_cons, hm, beq_false_of_ne h]
    next => rw [lookup_cons, lookup_cons, ih]

/-! ## Paths through a tree -/

/-- `Leads t here pieces loc`: the pieces of a path lead from the place `here`, whose names are in
reverse, to the place `loc`. -/
inductive Leads (t : FileTree) : List String → List String → List String → Prop
  | done {here : List String} : Leads t here [] here.reverse
  | idle {here rest loc : List String} {piece : String} {entries : List (String × FileTree)} :
    t.get here.reverse = .ok (dir entries) → Path.isIdle piece = true → Leads t here rest loc →
    Leads t here (piece :: rest) loc
  | up {up rest loc : List String} {n : String} {entries : List (String × FileTree)} :
    t.get (n :: up).reverse = .ok (dir entries) → Leads t up rest loc → Leads t (n :: up) (".." :: rest) loc
  | name {here rest loc : List String} {piece : String} {e : FileTree} :
    t.get (here.reverse ++ [piece]) = .ok e → Path.isIdle piece = false → piece ≠ ".." →
    Leads t (piece :: here) rest loc → Leads t here (piece :: rest) loc

lemma follow_cons (here : List String) (piece : String) (rest : List String) : t.follow here (piece :: rest) = (do
      let current ← t.get here.reverse
      if !current.isDir then .error .notDirectory
      else if Path.isIdle piece then t.follow here rest
      else if piece = ".." then
        match here with
        | [] => .error .notFound
        | _ :: up => t.follow up rest
      else do
        let _ ← current.child piece
        t.follow (piece :: here) rest) := by
  conv_lhs => rw [follow.eq_def]
  dsimp only
  rcases t.get here.reverse with e | _ | _ <;> rfl

/-- A path is followed as far as it leads. -/
lemma follow_eq_ok_iff : t.follow here pieces = .ok loc ↔ Leads t here pieces loc := by
  constructor
  · induction pieces generalizing here with
    | nil =>
      rintro ⟨⟩
      exact .done
    | cons piece rest ih =>
      intro h
      rw [follow_cons] at h
      rcases hcur : t.get here.reverse with e | _ | entries
      · rw [hcur] at h
        cases h
      · rw [hcur] at h
        cases h
      rw [hcur] at h
      change (if Path.isIdle piece = true then _ else _) = _ at h
      split at h
      next hidle => exact .idle hcur hidle (ih h)
      next hidle =>
        split at h
        next hup =>
          subst hup
          cases here with
          | nil => cases h
          | cons n up => exact .up hcur (ih h)
        next hup =>
          cases hchild : (dir entries).child piece with
          | error e =>
            rw [hchild] at h
            cases h
          | ok e =>
            rw [hchild] at h
            have hget : t.get (here.reverse ++ [piece]) = .ok e := by
              rw [get_append, hcur]
              change (dir entries).child piece >>= _ = _
              rw [hchild]
              rfl
            exact .name hget (by simpa using hidle) hup (ih h)
  · intro h
    induction h with
    | done => rfl
    | idle hdir hidle _ ih => simp [follow_cons, hdir, hidle, ih, bind, Except.bind, isDir]
    | up hdir _ ih =>
      have hidle : Path.isIdle ".." = false := by decide
      simp only [follow_cons, hdir, hidle, ih, bind, Except.bind, isDir]
      rfl
    | @name here rest loc piece e he hidle hup _ ih =>
      rw [get_append] at he
      cases hcur : t.get here.reverse with
      | error =>
        rw [hcur] at he
        cases he
      | ok current =>
        rw [hcur] at he
        obtain ⟨entries, e', rfl, hlook, -⟩ := exists_of_get_cons (t := current) he
        simp [follow_cons, hcur, hidle, hup, ih, child, hlook, bind, Except.bind, isDir]

namespace Leads

variable {here pieces rest loc : List String}

/-- Names that lead somewhere are added to the place they start from. -/
lemma eq_of_isName (hnames : ∀ n ∈ names, Path.IsName n) (h : Leads t here names loc) :
    loc = here.reverse ++ names := by
  induction h with
  | done => simp
  | @idle _ _ _ piece _ _ hidle _ _ =>
    have hn := hnames piece (by simp)
    simp [Path.isIdle, hn.ne_empty, hn.ne_here] at hidle
  | up => exact absurd rfl (hnames ".." (by simp)).ne_up
  | name _ _ _ _ ih => simpa using ih fun n hn => hnames n (by simp [hn])

lemma append {mid : List String} (h : Leads t here pieces mid) (h' : Leads t mid.reverse rest loc) :
    Leads t here (pieces ++ rest) loc := by
  induction h with
  | done => simpa using h'
  | idle hdir hidle _ ih => exact .idle hdir hidle (ih h')
  | up hdir _ ih => exact .up hdir (ih h')
  | name he hidle hup _ ih => exact .name he hidle hup (ih h')

lemma exists_of_append (h : Leads t here (pieces ++ rest) loc) :
    ∃ mid, Leads t here pieces mid ∧ Leads t mid.reverse rest loc := by
  induction pieces generalizing here with
  | nil => exact ⟨_, .done, by simpa using h⟩
  | cons piece pieces ih =>
    cases h with
    | idle hdir hidle h =>
      obtain ⟨mid, hmid, hrest⟩ := ih h
      exact ⟨mid, .idle hdir hidle hmid, hrest⟩
    | up hdir h =>
      obtain ⟨mid, hmid, hrest⟩ := ih h
      exact ⟨mid, .up hdir hmid, hrest⟩
    | name he hidle hup h =>
      obtain ⟨mid, hmid, hrest⟩ := ih h
      exact ⟨mid, .name he hidle hup hmid, hrest⟩

end Leads

/-! ## Changes -/

/-- `Grows P t t'`: what is in the tree `t` is still in `t'`, as a directory or a file as before, and the
files at the places with the property `P` have the same content. -/
structure Grows (P : List String → Prop) (t t' : FileTree) : Prop where
  kind {ns : List String} {e : FileTree} : t.get ns = .ok e → ∃ e', t'.get ns = .ok e' ∧ e'.isDir = e.isDir
  content {ns : List String} {c : ByteArray} : P ns → t.get ns = .ok (file c) → t'.get ns = .ok (file c)

namespace Grows

variable {P Q : List String → Prop}

lemma refl (P : List String → Prop) (t : FileTree) : Grows P t t := ⟨fun h => ⟨_, h, rfl⟩, fun _ h => h⟩

lemma trans {t'' : FileTree} (h : Grows P t t') (h' : Grows P t' t'') : Grows P t t'' := by
  refine ⟨fun he => ?_, fun hP hc => h'.content hP (h.content hP hc)⟩
  obtain ⟨e', he', hdir⟩ := h.kind he
  obtain ⟨e'', he'', hdir'⟩ := h'.kind he'
  exact ⟨e'', he'', hdir'.trans hdir⟩

lemma dir (h : Grows P t t') {entries : List (String × FileTree)} (hdir : t.get ns = .ok (.dir entries)) :
    ∃ entries', t'.get ns = .ok (.dir entries') := by
  obtain ⟨_ | entries', hget, hkind⟩ := h.kind hdir
  · cases hkind
  · exact ⟨entries', hget⟩

/-- A path that can be followed leads to the same place when the tree grows. -/
lemma leads (h : Grows P t t') (hloc : Leads t here pieces loc) : Leads t' here pieces loc := by
  induction hloc with
  | done => exact .done
  | idle hdir hidle _ ih =>
    obtain ⟨_, hdir'⟩ := h.dir hdir
    exact .idle hdir' hidle ih
  | up hdir _ ih =>
    obtain ⟨_, hdir'⟩ := h.dir hdir
    exact .up hdir' ih
  | name he hidle hup _ ih =>
    obtain ⟨_, he', -⟩ := h.kind he
    exact .name he' hidle hup ih

end Grows

lemma get_of_isDir_false (he : e.isDir = false) (h : e.get ns = .ok d) : ns = [] ∧ d = e := by
  cases e with
  | dir => cases he
  | file c =>
    cases ns with
    | nil => exact ⟨rfl, (Except.ok.inj h).symm⟩
    | cons n ns => cases h

/-- The entries of a directory other than one that is set are as before. -/
lemma grows_setEntry {entries : List (String × FileTree)} {Q : List String → Prop}
    (hP : ∀ n ns, P (n :: ns) → n = name → Q ns) (h : ∀ old, entries.lookup name = some old → Grows Q old e) :
    Grows P (dir entries) (dir (setEntry name e entries)) := by
  have hcases : ∀ {n : String} {ns : List String} {d : FileTree}, (dir entries).get (n :: ns) = .ok d →
      (n = name ∧ ∃ old, entries.lookup name = some old ∧ old.get ns = .ok d ∧
        (dir (setEntry name e entries)).get (n :: ns) = e.get ns) ∨
      (dir (setEntry name e entries)).get (n :: ns) = .ok d := by
    intro n ns d hd
    obtain ⟨_, old, ⟨⟩, hold, hget⟩ := exists_of_get_cons hd
    rcases eq_or_ne n name with rfl | hne
    · exact .inl ⟨rfl, old, hold, hget, get_dir_cons (lookup_setEntry_self _ _ _) ns⟩
    · rw [get_dir_cons ((lookup_setEntry_of_ne hne _ _).trans hold)]
      exact .inr hget
  refine ⟨fun {ns d} hd => ?_, fun {ns c} hns hc => ?_⟩
  · cases ns with
    | nil =>
      cases hd
      exact ⟨_, rfl, rfl⟩
    | cons n ns =>
      obtain ⟨-, old, hold, hget, heq⟩ | hsame := hcases hd
      · rw [heq]
        exact (h old hold).kind hget
      · exact ⟨d, hsame, rfl⟩
  · cases ns with
    | nil => cases hc
    | cons n ns =>
      obtain ⟨hn, old, hold, hget, heq⟩ | hsame := hcases hc
      · rw [heq]
        exact (h old hold).content (hP n ns hns hn) hget
      · exact hsame

/-- **What a change of one entry changes**: a directory gets an entry it did not have, or a file takes the
place of a file. -/
lemma grows_put {entries : List (String × FileTree)} (hplace : t.get place = .ok (dir entries))
    (hname : ∀ old, entries.lookup name = some old → old.isDir = false ∧ e.isDir = false) :
    (t.put e (place ++ [name])).get (place ++ [name]) = .ok e ∧
      Grows (· ≠ place ++ [name]) t (t.put e (place ++ [name])) := by
  induction place generalizing t with
  | nil =>
    cases hplace
    refine ⟨get_dir_cons (lookup_setEntry_self _ _ _) [], ?_⟩
    refine grows_setEntry (Q := (· ≠ [])) ?_ fun old hold => ?_
    · rintro n ns hne rfl rfl
      exact hne rfl
    · obtain ⟨hfile, he⟩ := hname old hold
      refine ⟨fun {ns d} hd => ?_, fun {ns c} hns hc => ?_⟩
      · obtain ⟨rfl, rfl⟩ := get_of_isDir_false hfile hd
        exact ⟨e, rfl, he.trans hfile.symm⟩
      · exact absurd (get_of_isDir_false hfile hc).1 hns
  | cons m place ih =>
    obtain ⟨es, sub, rfl, hsub, hget⟩ := exists_of_get_cons hplace
    obtain ⟨hself, hgrows⟩ := ih hget
    have hput : (dir es).put e (m :: place ++ [name]) = dir (setEntry m (sub.put e (place ++ [name])) es) := by
      rw [cons_append, put, hsub]
      rfl
    rw [hput]
    refine ⟨(get_dir_cons (lookup_setEntry_self _ _ _) _).trans hself, ?_⟩
    refine grows_setEntry (Q := (· ≠ place ++ [name])) ?_ fun old hold => ?_
    · rintro n ns hne rfl rfl
      exact hne rfl
    · obtain rfl := Option.some_inj.mp (hsub.symm.trans hold)
      exact hgrows

/-! ## Operations -/

lemma exists_of_bind_ok {ε α β : Type} {x : Except ε α} {f : α → Except ε β} {b : β} (h : x >>= f = .ok b) :
    ∃ a, x = .ok a ∧ f a = .ok b := by
  cases x with
  | error e => cases h
  | ok a => exact ⟨a, rfl, h⟩

lemma get_concat {entries : List (String × FileTree)} (h : t.get place = .ok (dir entries)) :
    t.get (place ++ [name]) = (dir entries).child name := by
  rw [get_append, h]
  change (dir entries).child name >>= _ = _
  cases (dir entries).child name <;> rfl

/-- A path gives the place where its pieces but the last lead to, and its last piece. -/
lemma exists_of_slot (h : t.slot path = .ok (place, name)) :
    path ≠ "" ∧ Path.isAbsolute path = false ∧
      (∃ ps, Path.pieces path = ps ++ [name] ∧ Leads t [] ps place) ∧
      ∃ entries, t.get place = .ok (dir entries) := by
  unfold slot at h
  split at h
  · cases h
  next hpath =>
    simp only [Bool.or_eq_true, decide_eq_true_eq, not_or, Bool.not_eq_true] at hpath
    obtain ⟨place', hplace, h⟩ := exists_of_bind_ok h
    obtain ⟨d, hd, h⟩ := exists_of_bind_ok h
    cases d with
    | file c => cases h
    | dir entries =>
      cases h
      refine ⟨hpath.1, hpath.2, ⟨_, ?_, follow_eq_ok_iff.mp hplace⟩, entries, hd⟩
      have hne : Path.pieces path ≠ [] := segments_ne_nil _ _
      rw [getLast?_eq_some_getLast hne, Option.getD_some, dropLast_concat_getLast]

/-- The place that a path leads to once its last piece is there. -/
lemma locate_of_slot (h : t.slot path = .ok (place, name)) (hidle : Path.isIdle name = false)
    (hup : name ≠ "..") (hgrows : Grows P t t') (he : t'.get (place ++ [name]) = .ok e) :
    t'.locate path = .ok (place ++ [name]) := by
  obtain ⟨hne, habs, ⟨ps, hps, hleads⟩, -⟩ := exists_of_slot h
  have hlast : Leads t' place.reverse [name] (place ++ [name]) := by
    have hdone : Leads t' (name :: place.reverse) [] (name :: place.reverse).reverse := .done
    rw [reverse_cons, reverse_reverse] at hdone
    exact .name (by simpa using he) hidle hup hdone
  rw [locate, if_neg (by simp [hne, habs]), hps]
  exact follow_eq_ok_iff.mpr ((hgrows.leads hleads).append hlast)

/-- A file is written where its path leads to, and nothing else changes. -/
lemma exists_of_writeText (h : t.writeText path text = .ok t') :
    ∃ loc, t'.locate path = .ok loc ∧ t'.get loc = .ok (file text.toUTF8) ∧ Grows (· ≠ loc) t t' := by
  unfold writeText at h
  obtain ⟨⟨place, name⟩, hslot, h⟩ := exists_of_bind_ok h
  obtain ⟨-, -, -, entries, hdir⟩ := exists_of_slot hslot
  change (if (Path.isIdle name || decide (name = "..")) = true then _ else _) = _ at h
  split at h
  · cases h
  next hname =>
    simp only [Bool.or_eq_true, decide_eq_true_eq, not_or, Bool.not_eq_true] at hname
    obtain ⟨d, hd, h⟩ := exists_of_bind_ok h
    obtain rfl := Except.ok.inj (hdir.symm.trans hd)
    have hold : ∀ old, entries.lookup name = some old → old.isDir = false ∧ (file text.toUTF8).isDir = false := by
      rintro (_ | _) hlook
      · exact ⟨rfl, rfl⟩
      · simp only [child, hlook] at h
        cases h
    have ht' : t' = t.put (file text.toUTF8) (place ++ [name]) := by
      split at h
      · cases h
      · exact (Except.ok.inj h).symm
    subst ht'
    obtain ⟨hself, hgrows⟩ := grows_put hdir hold
    exact ⟨place ++ [name], locate_of_slot hslot hname.1 hname.2 hgrows hself, hself, hgrows⟩

/-- Making a directory changes no file. -/
lemma grows_makeDir (h : t.makeDir path = .ok t') : Grows (fun _ => True) t t' := by
  unfold makeDir at h
  obtain ⟨⟨place, name⟩, hslot, h⟩ := exists_of_bind_ok h
  obtain ⟨-, -, -, entries, hdir⟩ := exists_of_slot hslot
  change (if (Path.isIdle name || decide (name = "..")) = true then _ else _) = _ at h
  split at h
  · obtain ⟨_, -, h⟩ := exists_of_bind_ok h
    cases h
  · obtain ⟨d, hd, h⟩ := exists_of_bind_ok h
    obtain rfl := Except.ok.inj (hdir.symm.trans hd)
    split at h
    · cases h
    next e hnone =>
      cases h
      have hlook : ∀ old, entries.lookup name ≠ some old := by
        intro old hold
        rw [child, hold] at hnone
        cases hnone
      have hgrows := (grows_put (e := dir []) hdir fun old hold => absurd hold (hlook old)).2
      refine ⟨hgrows.kind, fun {ns c} _ hc => hgrows.content ?_ hc⟩
      rintro rfl
      rw [get_concat hdir, hnone] at hc
      cases hc

lemma grows_makeDirsUpTo {n : Nat} (h : t.makeDirsUpTo n path = .ok t') : Grows (fun _ => True) t t' := by
  induction n generalizing t path t' with
  | zero => cases h
  | succ n ih =>
    rw [makeDirsUpTo] at h
    split at h
    · cases h
      exact .refl _ _
    split at h
    next t₁ hmake =>
      cases h
      exact grows_makeDir hmake
    next =>
      split at h
      · cases h
      next up hup =>
        obtain ⟨t₁, ht₁, h⟩ := exists_of_bind_ok h
        refine (ih ht₁).trans ?_
        split at h
        next t₂ hmake =>
          cases h
          exact grows_makeDir hmake
        next =>
          split at h
          · cases h
            exact .refl _ _
          · cases h
    next =>
      split at h
      · cases h
        exact .refl _ _
      · cases h

lemma grows_makeDirs (h : t.makeDirs path = .ok t') : Grows (fun _ => True) t t' := grows_makeDirsUpTo h

/-- A text is read from the file that a path leads to. -/
lemma readText_eq_ok_iff : t.readText path = .ok text ↔
    ∃ loc c, t.locate path = .ok loc ∧ t.get loc = .ok (file c) ∧ String.fromUTF8? c = some text := by
  unfold readText find
  constructor
  · intro h
    obtain ⟨e, he, h⟩ := exists_of_bind_ok h
    obtain ⟨loc, hloc, he⟩ := exists_of_bind_ok he
    cases e with
    | dir => cases h
    | file c =>
      refine ⟨loc, c, hloc, he, ?_⟩
      simp only at h
      split at h
      next s hs =>
        cases h
        exact hs
      next => cases h
  · rintro ⟨loc, c, hloc, he, hc⟩
    simp [hloc, he, hc, bind, Except.bind, pure, Except.pure]

lemma Grows.locate (h : Grows P t t') (hloc : t.locate path = .ok loc) : t'.locate path = .ok loc := by
  unfold FileTree.locate at hloc ⊢
  split at hloc
  · cases hloc
  · rw [if_neg ‹_›]
    exact follow_eq_ok_iff.mpr (h.leads (follow_eq_ok_iff.mp hloc))

/-- The names of a path below a directory lead on from one place. -/
lemma exists_leads_of_locate_join (dir : String) : ∃ ps, ∀ {t : FileTree} {names loc : List String},
    names ≠ [] → (∀ n ∈ names, Path.IsName n) →
    t.locate (Path.join dir (joinWith "/" names)) = .ok loc →
    ∃ place, Leads t [] ps place ∧ loc = place ++ names := by
  obtain ⟨ps, hps⟩ : ∃ ps, ∀ names, names ≠ [] → (∀ n ∈ names, Path.IsName n) →
      Path.pieces (Path.join dir (joinWith "/" names)) = ps ++ names := by
    rcases eq_or_ne dir "" with rfl | hdir
    · refine ⟨[], fun names hne hnames => ?_⟩
      rw [Path.join, if_pos (by simp), Path.pieces_joinWith hne hnames, nil_append]
    · obtain ⟨ps, -, -, hjoin⟩ := Path.pieces_join hdir
      refine ⟨ps, fun names hne hnames => ?_⟩
      rw [hjoin _ (Path.isAbsolute_joinWith hnames), Path.pieces_joinWith hne hnames]
  refine ⟨ps, fun hne hnames hloc => ?_⟩
  unfold locate at hloc
  split at hloc
  · cases hloc
  · rw [hps _ hne hnames] at hloc
    obtain ⟨place, hplace, hrest⟩ := (follow_eq_ok_iff.mp hloc).exists_of_append
    exact ⟨place, hplace, by simpa using hrest.eq_of_isName hnames⟩

lemma Leads.unique {loc' : List String} (h : Leads t here pieces loc) (h' : Leads t here pieces loc') : loc = loc' :=
  Except.ok.inj ((follow_eq_ok_iff.mpr h).symm.trans (follow_eq_ok_iff.mpr h'))

/-! ## Reading after writing -/

lemma fromUTF8?_toUTF8 (text : String) : String.fromUTF8? text.toUTF8 = some text := by
  have h : text.toUTF8.IsValidUTF8 := text.isValidUTF8
  exact dif_pos h

lemma readText_of_writeText (h : t.writeText path text = .ok t') : t'.readText path = .ok text := by
  obtain ⟨loc, hloc, hget, -⟩ := exists_of_writeText h
  exact readText_eq_ok_iff.mpr ⟨loc, _, hloc, hget, fromUTF8?_toUTF8 text⟩

/-- Writing a file leaves the other files below the same directory as they are. -/
lemma readText_of_writeText_of_ne {dir : String} {names' : List String} (hne : names ≠ [])
    (hnames : ∀ n ∈ names, Path.IsName n) (hne' : names' ≠ []) (hnames' : ∀ n ∈ names', Path.IsName n)
    (hdiff : names ≠ names') (h : t.writeText (Path.join dir (joinWith "/" names)) text = .ok t')
    (hread : t.readText (Path.join dir (joinWith "/" names')) = .ok other) :
    t'.readText (Path.join dir (joinWith "/" names')) = .ok other := by
  obtain ⟨ps, hps⟩ := exists_leads_of_locate_join dir
  obtain ⟨loc, hloc, -, hgrows⟩ := exists_of_writeText h
  obtain ⟨loc', c, hloc', hc, htext⟩ := readText_eq_ok_iff.mp hread
  obtain ⟨place, hplace, rfl⟩ := hps hne hnames hloc
  obtain ⟨place', hplace', rfl⟩ := hps hne' hnames' (hgrows.locate hloc')
  obtain rfl := hplace.unique hplace'
  refine readText_eq_ok_iff.mpr ⟨_, c, hgrows.locate hloc', hgrows.content ?_ hc, htext⟩
  intro heq
  exact hdiff (append_cancel_left heq).symm

lemma readText_of_makeDirs (h : t.makeDirs path = .ok t') (hread : t.readText other = .ok text) :
    t'.readText other = .ok text := by
  obtain ⟨loc, c, hloc, hc, htext⟩ := readText_eq_ok_iff.mp hread
  have hgrows := grows_makeDirs h
  exact readText_eq_ok_iff.mpr ⟨loc, c, hgrows.locate hloc, hgrows.content trivial hc, htext⟩

/-! ## Shapes -/

lemma shapes_eq_map (entries : List (String × FileTree)) :
    shapes entries = entries.map fun e => (e.1, e.2.shape) := by
  induction entries with
  | nil => rfl
  | cons e entries ih => rw [shapes, ih]; rfl

/-- The names below a place in a tree are names of the tree. -/
lemma proper_shape_of_get (h : t.shape.Proper) (hd : t.get ns = .ok d) : d.shape.Proper := by
  induction ns generalizing t with
  | nil =>
    cases hd
    exact h
  | cons n ns ih =>
    obtain ⟨entries, e, rfl, he, hget⟩ := exists_of_get_cons hd
    refine ih ?_ hget
    rw [shape, shapes_eq_map, Shape.proper_dir_iff] at h
    obtain ⟨l₁, l₂, rfl, -⟩ := lookup_eq_some_iff.mp he
    exact h.2 (n, e.shape) (by simp)

end FileTree

end EcmaLower
