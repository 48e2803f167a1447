import SymbolSearch.IndexFile.Load
import SymbolSearch.Locator
import SymbolSearch.Request
import SymbolSearch.Settings.Store

/-!
# Sessions

A session is a place to search from: a tree of files and a working directory in it. A request is
answered from the index file of the session.

## Main definitions

* `Session` — files and a working directory
* `Session.Failure` — why a request has no answer
* `Session.openIndex` — the index for a request
-/

namespace SymbolSearch

open Files

/-- Files and a working directory. -/
structure Session where
  /-- The files. -/
  tree : Tree
  /-- The working directory. -/
  cwd : Location
  /-- A path of the working directory. -/
  root : String
  deriving DecidableEq, Repr

namespace Session

/-- Why a request has no answer. -/
inductive Failure where
  /-- There is no index file. -/
  | locate (fault : Locator.Fault)
  /-- The index file cannot be loaded. -/
  | load (path : String) (fault : IndexFile.Fault)
  /-- The directory of the log cannot be made. -/
  | logDirectory (path : String) (fault : Files.Fault)
  /-- The log file cannot be opened. -/
  | logFile (path : String) (fault : Files.Fault)
  deriving DecidableEq, Repr

namespace Failure

/-- The words for a failure. -/
def message : Failure → String
  | .locate fault => fault.message
  | .load path _ => "Failed to load SCIP index from " ++ path
  | .logDirectory path _ => "Failed to create log directory: " ++ path
  | .logFile path _ => "Failed to open log file: " ++ path

/-- The words for what is behind a failure, the nearest first. -/
def causes : Failure → List String
  | .locate _ => []
  | .load _ fault => fault.message :: fault.causes
  | .logDirectory _ fault => [fault.message]
  | .logFile _ fault => [fault.message]

/-- A failure and its causes on one line. -/
def chain (f : Failure) : String := ": ".intercalate (f.message :: f.causes)

/-- A text whose first line stands behind `first` and each further line behind `further`. -/
def indented (first further text : String) : String :=
  let lines := Text.splitOn '\n' text.toList
  first ++ String.ofList (Text.join ('\n' :: further.toList) lines)

/-- The causes on lines of their own, numbered if there are several. The further lines of a cause
stand below its first one. -/
def causeLines (f : Failure) : List String :=
  match f.causes with
  | [cause] => [indented "    " "    " cause]
  | causes =>
    causes.zipIdx.map fun (cause, i) =>
      indented ("    " ++ String.ofList (Nat.toDigits 10 i) ++ ": ") "       " cause

/-- A failure as it is shown to the user. -/
def display (f : Failure) : String :=
  let lines := if f.causes.isEmpty then [] else ["", "Caused by:"] ++ f.causeLines
  String.join ((("Error: " ++ f.message) :: lines).map (· ++ "\n"))

end Failure

/-- The settings of a session. -/
def settings (s : Session) : Except Settings.Fault Settings := Settings.load s.tree s.cwd s.root

/-- The locator that settings describe. -/
def locator (settings : Settings) : Locator :=
  ⟨settings.index.fileName, settings.index.maxParentSearch.toNat⟩

/-- The index file for a request. -/
def indexFile (s : Session) (settings : Settings) (request : Request) : Except Failure String :=
  match (locator settings).locate s.tree s.cwd request.indexFile s.root with
  | .ok path => .ok path
  | .error fault => .error (.locate fault)

/-- The documents of the index file at a path. -/
def documents (s : Session) (path : String) : Except Failure (List Document) :=
  match IndexFile.load s.tree s.cwd path with
  | .ok documents => .ok documents
  | .error fault => .error (.load path fault)

/-- The index for a request. -/
def openIndex (s : Session) (settings : Settings) (request : Request) : Except Failure Index := do
  let path ← s.indexFile settings request
  return Index.build settings.index.convention (← s.documents path)

end Session

end SymbolSearch
