import EcmaLower.Text.Segments

/-!
# Paths

A path is a text whose parts are separated by `/`. Empty parts do not count, and neither does `.`,
except at the start of a relative path.
-/

namespace EcmaLower.Path

/-- A part of a path. -/
inductive Part
  /-- The start of an absolute path. -/
  | root
  /-- `.` at the start of a relative path. -/
  | here
  /-- `..` -/
  | up
  /-- A name. -/
  | name (s : String)
deriving DecidableEq, Repr

/-- The pieces of a path between its slashes. -/
def pieces (path : String) : List String := segments (· == '/') path

/-- Whether a path starts at the root. -/
def isAbsolute (path : String) : Bool := path.startsWith "/"

/-- The part that a piece stands for behind the start of a path. -/
def innerPart? (piece : String) : Option Part :=
  if piece = "" || piece = "." then none
  else if piece = ".." then some .up
  else some (.name piece)

/-- The parts of a path. -/
def parts (path : String) : List Part :=
  let inner := (pieces path).filterMap innerPart?
  if isAbsolute path then .root :: inner
  else if (pieces path).head? = some "." then .here :: inner
  else inner

/-- The parts of a path that follow those of a base; none if the base is no start of it. -/
def below? (path base : List Part) : Option (List Part) :=
  if base.isPrefixOf path then some (path.drop base.length) else none

/-- The names among the parts of a path. -/
def names (ps : List Part) : List String :=
  ps.filterMap fun
    | .name s => some s
    | _ => none

/-- Whether a piece at the end of a path does not count. -/
def isIdle (piece : String) : Bool := piece = "" || piece = "."

/-- The pieces of a relative path without those at its end that do not count; a `.` at the start of
the path stays. -/
def trimPieces : List String → List String
  | [] => []
  | "." :: rest => "." :: dropEndWhile isIdle rest
  | first :: rest => dropEndWhile isIdle (first :: rest)

/-- A path without its last part; none if it has no part that can be dropped. -/
def parent? (path : String) : Option String :=
  match (parts path).getLast? with
  | none | some .root => none
  | some _ =>
    if isAbsolute path then
      let kept := dropEndWhile isIdle (dropEndWhile isIdle (pieces path)).dropLast
      some (if kept.isEmpty then "/" else joinWith "/" kept)
    else some (joinWith "/" (trimPieces (trimPieces (pieces path)).dropLast))

/-- The last part of a path, if it is a name. -/
def fileName? (path : String) : Option String :=
  match (parts path).getLast? with
  | some (.name s) => some s
  | _ => none

/-- What follows the last dot of a file name; a dot at its start does not count. -/
def extension? (fileName : String) : Option String :=
  match (segments (· == '.') fileName).reverse with
  | ext :: before :: more => if before = "" && more.isEmpty then none else some ext
  | _ => none

/-- A path below a directory. -/
def join (dir path : String) : String :=
  if isAbsolute path || dir = "" then path
  else if dir.endsWith "/" then dir ++ path
  else dir ++ "/" ++ path

end EcmaLower.Path
