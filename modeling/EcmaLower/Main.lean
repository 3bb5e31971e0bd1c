import EcmaLower.CommandLine.Run

/-!
# The command line program

Real files and streams for `CommandLine.run`, and the loop that looks for changed inputs.
What a run does is decided there; here it is only carried out.
-/

namespace EcmaLower.RealFiles

/-- The error of a file operation. -/
def errorOf : IO.Error → FileError
  | .noFileOrDirectory .. => .notFound
  | .alreadyExists .. => .alreadyExists
  | .inappropriateType _ code _ =>
    if code == 20 then .notDirectory
    else if code == 21 then .isDirectory
    else .other ("os error " ++ toString code)
  | e => .other (toString e)

/-- Runs an operation; its failure is part of the result. -/
def attempt {α : Type} (act : IO α) : IO (Except FileError α) := do
  match ← act.toBaseIO with
  | .ok a => return .ok a
  | .error e => return .error (errorOf e)

/-- The text that bytes encode. -/
def decode (bytes : Except FileError ByteArray) : Except FileError String := do
  match String.fromUTF8? (← bytes) with
  | some text => return text
  | none => throw .notText

/-- All bytes of a stream, after those already read. -/
partial def readAll (stream : IO.FS.Stream) (bytes : ByteArray) : IO ByteArray := do
  let more ← stream.read 65536
  if more.isEmpty then return bytes else readAll stream (bytes ++ more)

/-- The shape of an entry of a directory. -/
partial def shapeOf (entry : IO.FS.DirEntry) : IO (String × Shape) := do
  if ← entry.path.isDir then
    let entries ← (← entry.path.readDir).mapM shapeOf
    return (entry.fileName, .dir entries.toList)
  return (entry.fileName, .file)

/-- The shape of a directory, if there is one. -/
def directory? (path : String) : IO (Option Shape) := do
  let place := (← IO.currentDir) / path
  if ← place.isDir then
    let entries ← (← place.readDir).mapM shapeOf
    return some (.dir entries.toList)
  return none

/-- The operations on the files of the machine. -/
def access : FileAccess IO where
  readInput := do return decode (← attempt (readAll (← IO.getStdin) .empty))
  readText path := do return decode (← attempt (IO.FS.readBinFile path))
  directory? := directory?
  makeDirs path := attempt (IO.FS.createDirAll path)
  writeText path text := attempt (IO.FS.writeFile path text)

/-- Prints what a run reports. -/
def print (report : CommandLine.Report) : IO Unit := do
  (← IO.getStdout).putStr report.stdout
  (← IO.getStdout).flush
  (← IO.getStderr).putStr report.stderr

/-- Looks at the inputs again and again. -/
partial def watch (args : List String) (known : List CommandLine.Input) : IO Unit := do
  IO.sleep 500
  let report ← CommandLine.rebuild access args known
  print report
  watch args report.watched

end EcmaLower.RealFiles

/-- Compiles what the arguments name. -/
def main (args : List String) : IO UInt32 := do
  let report ← EcmaLower.CommandLine.run EcmaLower.RealFiles.access args
  EcmaLower.RealFiles.print report
  if !report.watched.isEmpty then
    let names := report.watched.map (·.unit.fileName)
    (← IO.getStderr).putStrLn ("Watching " ++ EcmaLower.joinWith ", " names)
    EcmaLower.RealFiles.watch args report.watched
  return report.exit.toUInt32
