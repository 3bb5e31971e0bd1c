import EcmaLower.CommandLine.Switch
import EcmaLower.Text.Similarity

/-!
# Arguments of the command line

Switches and paths may stand in any order. A value stands in the argument of its switch, behind `=`
or right behind the letter, or is the next argument unless that is a switch. After `--` every argument
is a path.
-/

namespace EcmaLower.CommandLine

/-- What a run is asked to do. -/
structure Arguments where
  paths : List String := []
  output : Option String := none
  moduleName : Option String := none
  moduleType : Option String := none
  config : Option String := none
  tree : Bool := false
  watch : Bool := false
deriving DecidableEq, Repr

/-- What an argument can give: a switch, or paths. -/
inductive Slot
  | switch (s : Switch)
  | paths
deriving DecidableEq, Repr

/-- A slot as it is written where it need not be given. -/
def Slot.text : Slot → String
  | switch s => s.text
  | paths => "[PATHS]..."

/-- How the program is called with the slots that were used. -/
def usageWith (used : List Slot) : String :=
  if used.isEmpty then usage
  else
    let switches := used.filterMap fun
      | .switch s => some s.text
      | .paths => none
    let paths := if used.contains .paths then "<PATHS>..." else "[PATHS]..."
    "Usage: " ++ joinWith " " (programName :: switches ++ [paths])

/-- Why arguments are refused. -/
inductive ArgumentError
  /-- No switch of this name, given as it was written; another one may be meant. -/
  | unknown (arg : String) (similar : Option Switch) (used : List Slot)
  /-- A value is missing or empty. -/
  | missingValue (slot : Slot)
  /-- A switch was given twice. -/
  | repeated (s : Switch)
  /-- A switch without a value was given one. -/
  | unneededValue (s : Switch) (value : String) (used : List Slot)
deriving DecidableEq, Repr

/-- The text of an error. -/
def ArgumentError.message (e : ArgumentError) : String :=
  let body := match e with
    | unknown arg similar used =>
      let tip := match similar with
        | some s => "a similar argument exists: '--" ++ s.name ++ "'"
        | none => "to pass '" ++ arg ++ "' as a value, use '-- " ++ arg ++ "'"
      "unexpected argument '" ++ arg ++ "' found\n\n  tip: " ++ tip ++ "\n\n" ++ usageWith used
    | missingValue slot => "a value is required for '" ++ slot.text ++ "' but none was supplied"
    | repeated s =>
      "the argument '" ++ s.text ++ "' cannot be used multiple times\n\n" ++ usage
    | unneededValue s value used =>
      "unexpected value '" ++ value ++ "' for '" ++ s.text ++
        "' found; no more were expected\n\n" ++ usageWith used
  "error: " ++ body ++ "\n\nFor more information, try '--help'.\n"

/-- What ends the reading of arguments before their end. -/
inductive Stop
  | error (e : ArgumentError)
  | help
  | version
deriving DecidableEq, Repr

/-- What was read but not stored yet: a switch with its value, if there is one so far, or paths. -/
inductive Pending
  | switch (s : Switch) (value : Option String)
  | paths (l : List String)
deriving DecidableEq, Repr

/-- The state of reading. -/
structure Scan where
  args : Arguments := {}
  /-- The slots that were given, in order. -/
  used : List Slot := []
  pending : Option Pending := none
deriving DecidableEq, Repr

namespace Scan

/-- Refuses the arguments. -/
def refuse {α : Type} (e : ArgumentError) : Except Stop α := .error (.error e)

/-- Notes that a slot was given. -/
def note (s : Scan) (slot : Slot) : Scan :=
  if s.used.contains slot then s else { s with used := s.used ++ [slot] }

/-- Stores the value of a switch. -/
def storeValue (s : Scan) (sw : Switch) (value : String) : Except Stop Scan := do
  if s.used.contains (.switch sw) then refuse (.repeated sw)
  if sw.takesPath && value = "" then refuse (.missingValue (.switch sw))
  let args := s.args
  let args := match sw with
    | .output => { args with output := some value }
    | .moduleName => { args with moduleName := some value }
    | .moduleType => { args with moduleType := some value }
    | .config => { args with config := some value }
    | _ => args
  return { s with args }.note (.switch sw)

/-- Stores what is pending. -/
def resolve (s : Scan) : Except Stop Scan := do
  match s.pending with
  | none => return s
  | some (.switch sw none) => refuse (.missingValue (.switch sw))
  | some (.switch sw (some value)) => ({ s with pending := none } : Scan).storeValue sw value
  | some (.paths l) =>
    if l.contains "" then refuse (.missingValue .paths)
    return ({ s with
      pending := none
      args := { s.args with paths := s.args.paths ++ l } } : Scan).note .paths

/-- What is pending, stored as far as possible: for a message about another argument. -/
def settled (s : Scan) : Scan :=
  match s.resolve with
  | .ok s => s
  | .error _ =>
    match s.pending with
    | some (.paths _) => s.note .paths
    | _ => s

/-- A switch without a value. -/
def flag (s : Scan) (sw : Switch) : Except Stop Scan := do
  let s ← s.resolve
  match sw with
  | .help => throw .help
  | .version => throw .version
  | _ =>
    if s.used.contains (.switch sw) then refuse (.repeated sw)
    let args := match sw with
      | .tree => { s.args with tree := true }
      | .watch => { s.args with watch := true }
      | _ => s.args
    return { s with args }.note (.switch sw)

/-- A switch that takes a value, with the value in its argument or yet to come. -/
def valued (s : Scan) (sw : Switch) (value : Option String) : Except Stop Scan := do
  let s ← s.resolve
  match value with
  | some v => s.storeValue sw v
  | none => return { s with pending := some (.switch sw none) }

/-- The switch whose name is most similar to an unknown one, if any is similar at all. -/
def similar? (name : String) : Option Switch :=
  (Switch.all.filter fun sw => Similarity.isClose name.toList sw.name.toList).foldl
    (fun best sw => match best with
      | some b =>
        if Similarity.atMost name.toList b.name.toList name.toList sw.name.toList then some sw
        else best
      | none => some sw) none

/-- An argument `--name` or `--name=value`. -/
def long (s : Scan) (name : String) (value : Option String) : Except Stop Scan :=
  match Switch.ofName? name with
  | none =>
    let s := s.settled
    let similar := similar? name
    let s := (similar.map fun sw => s.note (.switch sw)).getD s
    refuse (.unknown ("--" ++ name) similar s.used)
  | some sw =>
    if sw.valueName?.isSome then s.valued sw value
    else match value with
      | some v => refuse (.unneededValue sw v (s.settled.note (.switch sw)).used)
      | none => s.flag sw

/-- The letters of an argument `-abc`. The rest behind the letter of a switch with a value is that
value. -/
def letters (s : Scan) : List Char → Except Stop Scan
  | [] => .ok s
  | c :: cs =>
    match Switch.ofLetter? c with
    | none => refuse (.unknown (String.ofList ['-', c]) none [])
    | some sw =>
      if sw.valueName?.isSome then
        match cs with
        | [] => s.valued sw none
        | '=' :: v => s.valued sw (some (String.ofList v))
        | v => s.valued sw (some (String.ofList v))
      else do (← s.flag sw).letters cs

/-- A path. -/
def path (s : Scan) (p : String) : Except Stop Scan :=
  match s.pending with
  | some (.paths l) => .ok { s with pending := some (.paths (l ++ [p])) }
  | _ => do return { (← s.resolve) with pending := some (.paths [p]) }

/-- An argument that is not a switch: the value that is waited for, or a path. -/
def plain (s : Scan) (arg : String) : Except Stop Scan :=
  match s.pending with
  | some (.switch sw none) => .ok { s with pending := some (.switch sw (some arg)) }
  | _ => s.path arg

end Scan

/-- A text at the first `=`. -/
def splitValue (cs : List Char) : String × Option String :=
  match cs.span (· != '=') with
  | (name, _ :: value) => (String.ofList name, some (String.ofList value))
  | (name, []) => (String.ofList name, none)

/-- Reads one argument before `--`. -/
def scanArg (s : Scan) (arg : String) : Except Stop Scan :=
  match arg.toList with
  | '-' :: '-' :: cs =>
    let (name, value) := splitValue cs
    s.long name value
  | '-' :: c :: cs => s.letters (c :: cs)
  | _ => s.plain arg

/-- Reads arguments; `isTail` after `--`. -/
def scanArgs : List String → (isTail : Bool) → Scan → Except Stop Scan
  | [], _, s => s.resolve
  | a :: rest, true, s => do scanArgs rest true (← s.path a)
  | a :: rest, false, s =>
    if a = "--" then scanArgs rest true s else do scanArgs rest false (← scanArg s a)

/-- Reads the arguments of a run. -/
def parse (args : List String) : Except Stop Arguments := do
  return (← scanArgs args false {}).args

end EcmaLower.CommandLine
