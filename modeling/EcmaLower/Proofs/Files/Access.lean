import EcmaLower.Proofs.Files.Trees

/-!
# Laws of access to files

What a run relies on: reading changes nothing, a file holds what was written to it last, and neither
writing another file nor making directories changes it. Trees of files have these laws.
-/

namespace EcmaLower

variable {σ : Type}

/-! ## Reading -/

namespace FileAccess

variable (fs : FileAccess (StateM σ)) (s : σ)

/-- The text on standard input. -/
def inputAt : Except FileError String := (fs.readInput s).1

/-- The text of a file. -/
def textAt (path : String) : Except FileError String := (fs.readText path s).1

/-- The shape of a directory. -/
def shapeAt (path : String) : Option Shape := (fs.directory? path s).1

/-- Reading leaves the files as they are. -/
structure ReadsOnly : Prop where
  readInput (s : σ) : (fs.readInput s).2 = s
  readText (path : String) (s : σ) : (fs.readText path s).2 = s
  directory? (path : String) (s : σ) : (fs.directory? path s).2 = s

variable {fs} {s}

lemma ReadsOnly.readInput_eq (h : fs.ReadsOnly) : fs.readInput s = (fs.inputAt s, s) := Prod.ext rfl (h.readInput s)

lemma ReadsOnly.readText_eq (h : fs.ReadsOnly) (path : String) :
    fs.readText path s = (fs.textAt s path, s) := Prod.ext rfl (h.readText path s)

lemma ReadsOnly.directory_eq (h : fs.ReadsOnly) (path : String) :
    fs.directory? path s = (fs.shapeAt s path, s) := Prod.ext rfl (h.directory? path s)

/-! ## Writing -/

variable (fs)

/-- Files keep what is written to them. -/
structure Lawful : Prop extends fs.ReadsOnly where
  /-- A file holds what was written last. -/
  text_of_write {path text : String} {s s' : σ} :
    fs.writeText path text s = (.ok (), s') → fs.textAt s' path = .ok text
  /-- Writing a file leaves the other files below a directory as they are. -/
  text_of_write_ne {dir text other : String} {names names' : List String} {s s' : σ} :
    names ≠ [] → (∀ n ∈ names, Path.IsName n) → names' ≠ [] → (∀ n ∈ names', Path.IsName n) →
    names ≠ names' → fs.writeText (Path.join dir (joinWith "/" names)) text s = (.ok (), s') →
    fs.textAt s (Path.join dir (joinWith "/" names')) = .ok other →
    fs.textAt s' (Path.join dir (joinWith "/" names')) = .ok other
  /-- Making directories leaves files as they are. -/
  text_of_makeDirs {path other text : String} {s s' : σ} :
    fs.makeDirs path s = (.ok (), s') → fs.textAt s other = .ok text → fs.textAt s' other = .ok text

/-! ## Trees of files -/

section OfTree

variable {input : String} {t t' : FileTree}

lemma eq_ok_of_changing {f : FileTree → Except FileError FileTree} (h : changing f t = (.ok (), t')) :
    f t = .ok t' := by
  unfold changing at h
  split at h
  next hf =>
    cases h
    exact hf
  next => cases h

lemma eq_ok_of_writeText_ofTree {path text : String}
    (h : (ofTree input).writeText path text t = (.ok (), t')) : t.writeText path text = .ok t' :=
  eq_ok_of_changing (f := (·.writeText path text)) h

lemma eq_ok_of_makeDirs_ofTree {path : String} (h : (ofTree input).makeDirs path t = (.ok (), t')) :
    t.makeDirs path = .ok t' :=
  eq_ok_of_changing (f := (·.makeDirs path)) h

lemma directory?_ofTree (path : String) : (ofTree input).directory? path t = (match t.find path with
      | .ok (.dir entries) => some (FileTree.dir entries).shape
      | _ => none, t) := by
  change (match t.find path with
    | .ok (.dir entries) => (pure (some (FileTree.dir entries).shape) : StateM FileTree _)
    | _ => pure none) t = _
  rcases t.find path with _ | _ | _ <;> rfl

/-- **Trees of files keep what is written to them.** -/
theorem lawful_ofTree (input : String) : (ofTree input).Lawful where
  readInput _ := rfl
  readText _ _ := rfl
  directory? path t := by rw [directory?_ofTree]
  text_of_write h := FileTree.readText_of_writeText (eq_ok_of_writeText_ofTree h)
  text_of_write_ne hne hnames hne' hnames' hdiff h hread :=
    FileTree.readText_of_writeText_of_ne hne hnames hne' hnames' hdiff (eq_ok_of_writeText_ofTree h) hread
  text_of_makeDirs h hread := FileTree.readText_of_makeDirs (eq_ok_of_makeDirs_ofTree h) hread

/-- The names that a directory of a tree lists are names of the tree. -/
lemma proper_of_shapeAt_ofTree (ht : t.shape.Proper) {path : String} {shape : Shape}
    (h : (ofTree input).shapeAt t path = some shape) : shape.Proper := by
  rw [shapeAt, directory?_ofTree] at h
  dsimp only at h
  split at h
  next entries hfind =>
    cases h
    obtain ⟨loc, -, hget⟩ := FileTree.exists_of_bind_ok hfind
    exact FileTree.proper_shape_of_get ht hget
  next => cases h

end OfTree

end FileAccess

end EcmaLower
