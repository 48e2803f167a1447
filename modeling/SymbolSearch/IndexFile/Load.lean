import SymbolSearch.Files.Tree
import SymbolSearch.IndexFile.Decode

/-!
# Loading an index file

## Main definitions

* `IndexFile.Fault` — why an index file cannot be loaded
* `IndexFile.load` — the documents of the file at a path
-/

namespace SymbolSearch.IndexFile

open Files

/-- Why an index file cannot be loaded. -/
inductive Fault where
  /-- There is nothing at the path. -/
  | notFound (path : String)
  /-- The file cannot be read. -/
  | unreadable (path : String) (cause : Files.Fault)
  /-- The bytes are no index. -/
  | malformed (cause : Wire.Fault)
  deriving DecidableEq, Repr

namespace Fault

/-- The words for a fault. -/
def message : Fault → String
  | .notFound path => "SCIP file not found: " ++ path
  | .unreadable path cause => "Failed to read SCIP file " ++ path ++ ": " ++ cause.message
  | .malformed cause => "Failed to parse SCIP file: " ++ cause.message

/-- The words for what is behind a fault. -/
def causes : Fault → List String
  | .notFound _ => []
  | .unreadable _ cause => [cause.message]
  | .malformed cause => [cause.message]

end Fault

/-- The bytes of the file at a path. -/
def readBytes (t : Tree) (cwd : Location) (path : String) : Except Fault (List UInt8) :=
  if t.contains cwd path then
    match t.read cwd path with
    | .ok bytes => .ok bytes
    | .error cause => .error (.unreadable path cause)
  else .error (.notFound path)

/-- The documents of the file at a path. -/
def load (t : Tree) (cwd : Location) (path : String) : Except Fault (List Document) := do
  match decode (← readBytes t cwd path) with
  | .ok documents => .ok documents
  | .error cause => .error (.malformed cause)

end SymbolSearch.IndexFile
