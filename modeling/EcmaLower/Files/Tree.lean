import EcmaLower.Files.Path

/-!
# Trees of files

A file system is a tree of directories. A path is followed from the top directory piece by piece,
through existing directories only, also where `..` leads back.
-/

namespace EcmaLower

/-- Why a file operation fails. -/
inductive FileError
  | notFound
  | alreadyExists
  | notDirectory
  | isDirectory
  /-- The content is not UTF-8. -/
  | notText
  /-- Any other reason, by its message. -/
  | other (message : String)
deriving DecidableEq, Repr

/-- The text of an error. -/
def FileError.message : FileError → String
  | notFound => "No such file or directory (os error 2)"
  | alreadyExists => "File exists (os error 17)"
  | notDirectory => "Not a directory (os error 20)"
  | isDirectory => "Is a directory (os error 21)"
  | notText => "stream did not contain valid UTF-8"
  | other m => m

/-! ## Shapes -/

/-- What a directory contains, without the contents of files. -/
inductive Shape
  | file
  | dir (entries : List (String × Shape))

namespace Shape

/-- Names and results, in the order of the names. -/
def byName {α : Type} (l : List (String × α)) : List (String × α) :=
  l.mergeSort fun a b => decide (a.1 ≤ b.1)

mutual

/-- The files below a directory, as the names that lead to them: entries by name, those of a
directory in the place of the directory. A file itself is reached by no name. -/
def files : Shape → List (List String)
  | file => [[]]
  | dir entries => (byName (filesOf entries)).flatMap fun (n, fs) => fs.map (n :: ·)

/-- The files below each entry. -/
def filesOf : List (String × Shape) → List (String × List (List String))
  | [] => []
  | (n, s) :: rest => (n, files s) :: filesOf rest

end

end Shape

/-! ## Trees -/

/-- A file with its content, or a directory with its entries. -/
inductive FileTree
  | file (content : ByteArray)
  | dir (entries : List (String × FileTree))

namespace FileTree

instance : Inhabited FileTree := ⟨dir []⟩

/-- Whether this is a directory. -/
def isDir : FileTree → Bool
  | file _ => false
  | dir _ => true

/-- The entry of a directory. -/
def child (t : FileTree) (name : String) : Except FileError FileTree :=
  match t with
  | file _ => .error .notDirectory
  | dir entries =>
    match entries.lookup name with
    | some e => .ok e
    | none => .error .notFound

/-- What the given names lead to. -/
def get (t : FileTree) : List String → Except FileError FileTree
  | [] => .ok t
  | n :: ns => do (← t.child n).get ns

/-- Entries with one of them replaced or added. -/
def setEntry (name : String) (e : FileTree) : List (String × FileTree) → List (String × FileTree)
  | [] => [(name, e)]
  | (n, old) :: rest => if n = name then (n, e) :: rest else (n, old) :: setEntry name e rest

/-- The tree with an entry put under the given names. -/
def put (t : FileTree) (e : FileTree) : List String → FileTree
  | [] => e
  | n :: ns =>
    match t with
    | file c => file c
    | dir entries => dir (setEntry n (put ((entries.lookup n).getD (dir [])) e ns) entries)

/-- Follows pieces of a path from the place that `here` leads to, in reverse. -/
def follow (t : FileTree) : (here : List String) → List String → Except FileError (List String)
  | here, [] => .ok here.reverse
  | here, piece :: rest => do
    let current ← t.get here.reverse
    if !current.isDir then throw .notDirectory
    if Path.isIdle piece then follow t here rest
    else if piece = ".." then
      match here with
      | [] => throw .notFound
      | _ :: up => follow t up rest
    else
      let _ ← current.child piece
      follow t (piece :: here) rest

/-- The names that a path leads through, once `.` and `..` are followed. -/
def locate (t : FileTree) (path : String) : Except FileError (List String) :=
  if path = "" || Path.isAbsolute path then .error .notFound else t.follow [] (Path.pieces path)

/-- What a path leads to. -/
def find (t : FileTree) (path : String) : Except FileError FileTree := do
  t.get (← t.locate path)

/-- The place that a path gives to a new entry: its directory and its name. -/
def slot (t : FileTree) (path : String) : Except FileError (List String × String) := do
  if path = "" || Path.isAbsolute path then throw .notFound
  let pieces := Path.pieces path
  let place ← t.follow [] pieces.dropLast
  if !(← t.get place).isDir then throw .notDirectory
  return (place, pieces.getLast?.getD "")

/-! ## Operations -/

/-- The text of a file. -/
def readText (t : FileTree) (path : String) : Except FileError String := do
  match ← t.find path with
  | dir _ => throw .isDirectory
  | file content =>
    match String.fromUTF8? content with
    | some s => return s
    | none => throw .notText

/-- Whether a path leads to a directory. -/
def isDirAt (t : FileTree) (path : String) : Bool :=
  match t.find path with
  | .ok e => e.isDir
  | .error _ => false

/-- Makes a directory. -/
def makeDir (t : FileTree) (path : String) : Except FileError FileTree := do
  let path := joinWith "/" (dropEndWhile (· = "") (Path.pieces path))
  let (place, name) ← t.slot path
  if Path.isIdle name || name = ".." then
    let _ ← t.find path
    throw .alreadyExists
  match (← t.get place).child name with
  | .ok _ => throw .alreadyExists
  | .error _ => return t.put (.dir []) (place ++ [name])

/-- Makes a directory and those above it that are missing. The first argument bounds how many. -/
def makeDirsUpTo : Nat → (t : FileTree) → String → Except FileError FileTree
  | 0, _, _ => .error (.other "failed to create whole tree")
  | n + 1, t, path =>
    if path = "" then .ok t
    else match t.makeDir path with
      | .ok t => .ok t
      | .error .notFound =>
        match Path.parent? path with
        | none => .error (.other "failed to create whole tree")
        | some up => do
          let t ← makeDirsUpTo n t up
          match t.makeDir path with
          | .ok t => return t
          | .error e => if t.isDirAt path then return t else throw e
      | .error e => if t.isDirAt path then .ok t else .error e

/-- Makes a directory and those above it that are missing. -/
def makeDirs (t : FileTree) (path : String) : Except FileError FileTree :=
  makeDirsUpTo ((Path.parts path).length + 1) t path

/-- Writes a file, in place of an older one. -/
def writeText (t : FileTree) (path text : String) : Except FileError FileTree := do
  let (place, name) ← t.slot path
  if Path.isIdle name || name = ".." then throw .isDirectory
  match (← t.get place).child name with
  | .ok (.dir _) => throw .isDirectory
  | _ => return t.put (.file text.toUTF8) (place ++ [name])

mutual

/-- The shape of a tree. -/
def shape : FileTree → Shape
  | file _ => .file
  | dir entries => .dir (shapes entries)

/-- The shapes of entries. -/
def shapes : List (String × FileTree) → List (String × Shape)
  | [] => []
  | (n, t) :: rest => (n, shape t) :: shapes rest

end

mutual

/-- The files of a tree with their contents, each by the names that lead to it. -/
def contents : FileTree → List (List String × ByteArray)
  | file c => [([], c)]
  | dir entries => contentsOf entries

/-- The files of the entries of a directory. -/
def contentsOf : List (String × FileTree) → List (List String × ByteArray)
  | [] => []
  | (n, t) :: rest => (contents t).map (fun (ns, c) => (n :: ns, c)) ++ contentsOf rest

end

end FileTree

end EcmaLower
