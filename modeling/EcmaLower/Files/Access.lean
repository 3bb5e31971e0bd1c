import EcmaLower.Files.Tree

/-!
# Access to files

A run of the compiler uses few operations on files and standard input. They are collected here, so
that a run can work on a real file system as well as on a `FileTree`.
-/

namespace EcmaLower

/-- The operations that a run uses. -/
structure FileAccess (m : Type → Type) where
  /-- The text of standard input. -/
  readInput : m (Except FileError String)
  /-- The text of a file. -/
  readText : String → m (Except FileError String)
  /-- The shape of a directory; none if there is no directory. -/
  directory? : String → m (Option Shape)
  /-- Makes a directory and those above it that are missing. -/
  makeDirs : String → m (Except FileError Unit)
  /-- Writes a text to a file. -/
  writeText : String → String → m (Except FileError Unit)

namespace FileAccess

/-- An operation that changes the tree unless it fails. -/
def changing (f : FileTree → Except FileError FileTree) : StateM FileTree (Except FileError Unit) :=
  fun t => match f t with
    | .ok t' => (.ok (), t')
    | .error e => (.error e, t)

/-- The operations on a tree of files, with a text as standard input. -/
def ofTree (input : String) : FileAccess (StateM FileTree) where
  readInput := pure (.ok input)
  readText path := do return (← get).readText path
  directory? path := do
    match (← get).find path with
    | .ok (.dir entries) => return some (FileTree.dir entries).shape
    | _ => return none
  makeDirs path := changing (·.makeDirs path)
  writeText path text := changing (·.writeText path text)

end FileAccess

end EcmaLower
