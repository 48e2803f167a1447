import SymbolSearch.Files.Tree

/-!
# Finding the index file

The index file is the one that is named, or else the nearest file of a given name in the working
directory and the directories above it, of which a limited number is searched.

## Main definitions

* `Locator` — the name looked for and the number of directories
* `Locator.candidates` — the paths that are tried, in order
* `Locator.search?` — the nearest file of the name
* `Locator.locate` — the index file
-/

namespace SymbolSearch

open Files

/-- What is looked for, and how far. -/
structure Locator where
  /-- The name of the index file. -/
  fileName : String
  /-- The number of directories that are searched. -/
  limit : Nat
  deriving DecidableEq, Repr

namespace Locator

/-- The locator that is used when nothing is configured. -/
def standard : Locator := ⟨"index.scip", 10⟩

/-- Why there is no index file. -/
inductive Fault where
  /-- There is nothing at the path that was named. -/
  | notFound (path : String)
  /-- No file of the name was found. -/
  | noIndex (fileName : String)
  deriving DecidableEq, Repr

/-- The words for a fault. -/
def Fault.message : Fault → String
  | .notFound path => "SCIP file not found: " ++ path
  | .noIndex fileName =>
    "No SCIP file found. Please specify a SCIP file using --scip option, or run from a directory " ++
      "containing " ++ fileName

/-- The directory that is searched first. A start that cannot be resolved is taken as it is. -/
def firstDirectory (t : Tree) (cwd : Location) (start : String) : String :=
  (t.canonical? cwd start).getD start

/-- The directories from a start upward. -/
def directories (t : Tree) (cwd : Location) (start : String) : List String :=
  Path.ancestors (firstDirectory t cwd start)

/-- The paths that are tried, the nearest first. -/
def candidates (l : Locator) (t : Tree) (cwd : Location) (start : String) : List String :=
  ((directories t cwd start).take l.limit).map fun directory => Path.join directory l.fileName

/-- The nearest file of the name. -/
def search? (l : Locator) (t : Tree) (cwd : Location) (start : String) : Option String :=
  (l.candidates t cwd start).find? (t.isFile cwd)

/-- The index file: the one that is named, or the nearest of the name. -/
def locate (l : Locator) (t : Tree) (cwd : Location) (named : Option String) (start : String) :
    Except Fault String :=
  match named with
  | some path => if t.contains cwd path then .ok path else .error (.notFound path)
  | none =>
    match l.search? t cwd start with
    | some path => .ok path
    | none => .error (.noIndex l.fileName)

end Locator

end SymbolSearch
