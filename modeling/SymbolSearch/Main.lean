import Std.Time.DateTime.Timestamp
import SymbolSearch.Program

/-!
# The command

Reads the part of the file system that a run looks at, runs the program on it, and prints and logs
what the run gives.
-/

namespace SymbolSearch.Main

open Files

/-- What is at a path. -/
def probe (path : String) : IO (Option Node) := do
  try
    return some (.file (← IO.FS.readBinFile path).data.toList)
  catch
    | .inappropriateType .. => return some .directory
    | _ => return none

/-- Adds what is found along a path to a tree, from a location on. -/
def survey (t : Tree) (here : Location) : List (List Char) → IO Tree
  | [] => return t
  | piece :: rest => do
    if !Path.isComponent piece then survey t here rest
    else if piece = ['.', '.'] then survey t here.dropLast rest
    else
      let place := here ++ [String.ofList piece]
      match t.node? place with
      | some .directory => survey t place rest
      | some (.file _) => return t
      | none =>
        match ← probe (Tree.pathOf place) with
        | none => return t
        | some node => survey (t.put place node) place rest

/-- Adds what is found along an absolute path to a tree. -/
def surveyPath (t : Tree) (path : String) : IO Tree := survey t [] (Text.splitOn '/' path.toList)

/-- The location of an absolute path without detours. -/
def locationOf (path : String) : Location :=
  ((Text.splitOn '/' path.toList).filter Path.isComponent).map String.ofList

/-- The moment it is. -/
def now : IO Log.Moment := do
  let seconds := (← Std.Time.Timestamp.now).toSecondsSinceUnixEpoch
  return Log.Moment.ofSeconds seconds.toInt.toNat

/-- Writes the events of a log file behind what it holds. -/
def writeLog (log : Program.LogFile) : IO Unit := do
  IO.FS.createDirAll log.directory
  for parent in Path.parent? log.path do
    IO.FS.createDirAll parent
  let handle ← IO.FS.Handle.mk log.path .append
  for event in log.events do
    handle.putStr event.line

/-- The session in the working directory, with all that a run looks at. -/
def session (arguments : List String) (now : Log.Moment) : IO Session := do
  let root := (← IO.currentDir).toString
  let t ← surveyPath Tree.empty root
  let t ← surveyPath t (Settings.fileOf root)
  let s : Session := ⟨t, locationOf root, root⟩
  match CommandLine.parse arguments with
  | .error _ => return s
  | .ok invocation =>
    let settings := s.settings.toOption.getD Settings.standard
    let paths := Program.paths s settings (invocation.request settings) now
    return { s with tree := ← paths.foldlM surveyPath t }

end SymbolSearch.Main

/-- Answers the command line. -/
def main (arguments : List String) : IO UInt32 := do
  let now ← SymbolSearch.Main.now
  let result := SymbolSearch.Program.run (← SymbolSearch.Main.session arguments now) arguments now
  for log in result.log do
    SymbolSearch.Main.writeLog log
  for notice in result.notices do
    IO.eprint notice.line
  IO.eprint result.stderr
  IO.print result.stdout
  return result.code.toUInt32
