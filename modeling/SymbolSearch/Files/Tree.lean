import SymbolSearch.Files.Path

/-!
# File trees

The files and directories that a program sees, as a value. Paths are looked up step by step from
the root or from a working directory: each step needs a directory to start from, two dots lead to
the directory above, and a slash at the end asks for a directory. Paths and names are limited in
length. A tree has no links: at a place is a file or a directory and nothing that leads elsewhere,
so two dots undo the name before them. Paths and names are Unicode texts; names of other bytes,
which a disk may hold, are not in a tree.

## Main definitions

* `Files.Tree` — files and directories by location
* `Files.Fault` — why a path cannot be used
* `Files.Tree.resolve` — the location a path leads to
* `Files.Tree.read`, `Files.Tree.write`, `Files.Tree.makeDirectories` — using a path
* `Files.Attempt` — the tree after a change that may have stopped halfway
-/

namespace SymbolSearch.Files

/-- A place in a tree, by the names that lead to it from the root. -/
abbrev Location := List String

/-- What is at a place. -/
inductive Node where
  | directory
  | file (bytes : List UInt8)
  deriving DecidableEq, Repr

/-- Why a path cannot be used. -/
inductive Fault where
  /-- There is nothing at the path. -/
  | missing
  /-- There is something at the path already. -/
  | occupied
  /-- A file stands where a directory is needed. -/
  | notDirectory
  /-- A directory stands where a file is needed. -/
  | isDirectory
  /-- The path or a name in it is too long. -/
  | nameTooLong
  /-- The path has a null character. -/
  | nulByte
  deriving DecidableEq, Repr

/-- The words for a fault. -/
def Fault.message : Fault → String
  | .missing => "No such file or directory (os error 2)"
  | .occupied => "File exists (os error 17)"
  | .notDirectory => "Not a directory (os error 20)"
  | .isDirectory => "Is a directory (os error 21)"
  | .nameTooLong => "File name too long (os error 36)"
  | .nulByte => "file name contained an unexpected NUL byte"

/-- Files and directories by location. The root is always a directory. -/
structure Tree where
  /-- What is at each location; of several entries the first counts. -/
  entries : List (Location × Node)
  deriving DecidableEq, Repr

namespace Tree

/-- The tree with nothing but its root. -/
def empty : Tree := ⟨[]⟩

/-- What is at a location. -/
def node? (t : Tree) (place : Location) : Option Node :=
  if place.isEmpty then some .directory else t.entries.lookup place

/-- Puts something at a location. -/
def put (t : Tree) (place : Location) (node : Node) : Tree := ⟨(place, node) :: t.entries⟩

@[simp] theorem node?_nil (t : Tree) : t.node? [] = some .directory := rfl

/-- What was put at a location below the root is there. -/
@[simp] theorem node?_put_self (t : Tree) {place : Location} (h : place ≠ []) (node : Node) :
    (t.put place node).node? place = some node := by
  simp [node?, put, h]

/-- Putting something at a location leaves the others as they are. -/
theorem node?_put_of_ne (t : Tree) {place other : Location} (h : other ≠ place) (node : Node) :
    (t.put place node).node? other = t.node? other := by
  have hbeq : (other == place) = false := beq_eq_false_iff_ne.mpr h
  simp [node?, put, List.lookup_cons, hbeq]

/-- Whether there is a directory at a location. -/
def isDirectoryAt (t : Tree) (place : Location) : Bool := t.node? place == some .directory

/-! ### Looking up -/

/-- Follows the pieces of a path between its slashes. -/
def walk (t : Tree) : Location → List (List Char) → Except Fault Location
  | here, [] => .ok here
  | here, piece :: rest =>
    if !t.isDirectoryAt here then .error .notDirectory
    else if !Path.isComponent piece then walk t here rest
    else if piece = ['.', '.'] then walk t here.dropLast rest
    else if Path.isNameTooLong (String.ofList piece) then .error .nameTooLong
    else
      let child := here ++ [String.ofList piece]
      match t.node? child with
      | none => .error .missing
      | some _ => walk t child rest

/-- Where a path starts. -/
def origin (cwd : Location) (path : String) : Location :=
  if Path.isAbsolute path then [] else cwd

/-- Follows a path of any length from a working directory. -/
def follow (t : Tree) (cwd : Location) (path : String) : Except Fault Location :=
  if Path.hasNul path then .error .nulByte
  else if path.isEmpty then .error .missing
  else t.walk (origin cwd path) (Text.splitOn '/' path.toList)

/-- What is wrong with a path as a text. -/
def pathFault? (path : String) : Option Fault :=
  if Path.hasNul path then some .nulByte
  else if Path.isTooLong path then some .nameTooLong
  else none

/-- The location a path leads to from a working directory. -/
def resolve (t : Tree) (cwd : Location) (path : String) : Except Fault Location :=
  match pathFault? path with
  | some fault => .error fault
  | none => t.follow cwd path

/-- What a path leads to. -/
def find? (t : Tree) (cwd : Location) (path : String) : Option Node :=
  match t.resolve cwd path with
  | .ok place => t.node? place
  | .error _ => none

/-- Whether a path leads to something. -/
def contains (t : Tree) (cwd : Location) (path : String) : Bool := (t.find? cwd path).isSome

/-- Whether a path leads to a file. -/
def isFile (t : Tree) (cwd : Location) (path : String) : Bool :=
  match t.find? cwd path with
  | some (.file _) => true
  | _ => false

/-- Whether a path leads to a directory. -/
def isDirectory (t : Tree) (cwd : Location) (path : String) : Bool :=
  t.find? cwd path == some .directory

/-- The bytes of the file at a path. -/
def read (t : Tree) (cwd : Location) (path : String) : Except Fault (List UInt8) := do
  match t.node? (← t.resolve cwd path) with
  | some (.file bytes) => .ok bytes
  | some .directory => .error .isDirectory
  | none => .error .missing

/-- The absolute path of a location. -/
def pathOf (place : Location) : String := "/" ++ "/".intercalate place

/-- The absolute path without detours that leads where a path leads. The path is followed piece by
piece, so it may have any length. -/
def canonical? (t : Tree) (cwd : Location) (path : String) : Option String :=
  match t.follow cwd path with
  | .ok place => some (pathOf place)
  | .error _ => none

/-- The names in the directory at a location. -/
def namesIn (t : Tree) (place : Location) : List String :=
  (t.entries.filterMap fun (other, _) =>
    match other.getLast? with
    | some name => if other.dropLast = place then some name else none
    | none => none).eraseDups

/-! ### Changing -/

/-- The location below the parent that the pieces above a last one lead to. -/
def placeBelow (t : Tree) (start : Location) (above : List (List Char)) (last : List Char) :
    Except Fault Location := do
  let parent ← t.walk start above
  if !t.isDirectoryAt parent then .error .notDirectory
  else if last = ['.'] || last = ['.', '.'] then .error .missing
  else if Path.isNameTooLong (String.ofList last) then .error .nameTooLong
  else .ok (parent ++ [String.ofList last])

/-- The location of something that is to be made at a path: its parent has to be a directory, and
slashes at the end do not count. -/
def newPlace (t : Tree) (cwd : Location) (path : String) : Except Fault Location :=
  match pathFault? path with
  | some fault => .error fault
  | none =>
    match (Text.splitOn '/' path.toList).reverse.dropWhile List.isEmpty with
    | [] => if Path.isAbsolute path then .error .occupied else .error .missing
    | last :: above =>
      match t.walk (origin cwd path) (last :: above).reverse with
      | .ok _ => .error .occupied
      -- What is wrong with the way to the parent is reported before the last piece is looked at.
      | .error _ => t.placeBelow (origin cwd path) above.reverse last

/-- Makes a directory whose parent exists. -/
def makeDirectory (t : Tree) (cwd : Location) (path : String) : Except Fault Tree := do
  return t.put (← t.newPlace cwd path) .directory

end Tree

/-- A tree after an attempt to change it. What was changed before a fault stays. -/
structure Attempt (ε : Type) where
  /-- The tree. -/
  tree : Tree
  /-- Why the attempt failed, if it did. -/
  fault : Option ε
  deriving DecidableEq, Repr

namespace Attempt

variable {ε : Type}

/-- An attempt that changes the tree as a whole or not at all. -/
def ofExcept (t : Tree) : Except ε Tree → Attempt ε
  | .ok changed => ⟨changed, none⟩
  | .error fault => ⟨t, some fault⟩

/-- Goes on with another attempt unless this one failed. -/
def andThen (a : Attempt ε) (next : Tree → Attempt ε) : Attempt ε :=
  match a.fault with
  | some _ => a
  | none => next a.tree

/-- The tree of an attempt that did not fail. -/
def toExcept (a : Attempt ε) : Except ε Tree :=
  match a.fault with
  | some fault => .error fault
  | none => .ok a.tree

end Attempt

namespace Tree

/-- Makes a directory whose parent exists, unless it is there. -/
def ensureDirectory (t : Tree) (cwd : Location) (path : String) : Attempt Fault :=
  if t.isDirectory cwd path then ⟨t, none⟩ else .ofExcept t (t.makeDirectory cwd path)

/-- Makes the first directory of a list of paths, each below the next, with those above it that are
missing. -/
def makeDirectoryChain (t : Tree) (cwd : Location) : List String → Attempt Fault
  | [] => ⟨t, some .missing⟩
  | path :: above =>
    match t.ensureDirectory cwd path with
    | ⟨_, some .missing⟩ =>
      -- The directory may be there once its parents are: `a/b/..` is, when `b` has been made.
      (makeDirectoryChain t cwd above).andThen fun t => t.ensureDirectory cwd path
    | attempt => attempt

/-- Makes a directory with those above it that are missing, unless it is there. -/
def makeDirectories (t : Tree) (cwd : Location) (path : String) : Attempt Fault :=
  t.makeDirectoryChain cwd (Path.ancestors path)

/-- The location of the file that is to be written at a path, there or not. -/
def filePlace (t : Tree) (cwd : Location) (path : String) : Except Fault Location :=
  match t.resolve cwd path with
  | .ok place => if t.isDirectoryAt place then .error .isDirectory else .ok place
  | .error .missing =>
    if path.toList.getLast? == some '/' then .error .isDirectory else t.newPlace cwd path
  | .error fault => .error fault

/-- Writes the file at a path, new or in place of what it held. -/
def write (t : Tree) (cwd : Location) (path : String) (bytes : List UInt8) :
    Except Fault Tree := do
  return t.put (← t.filePlace cwd path) (.file bytes)

/-- Writes behind what the file at a path holds; a missing file is begun. -/
def append (t : Tree) (cwd : Location) (path : String) (bytes : List UInt8) :
    Except Fault Tree := do
  let place ← t.filePlace cwd path
  match t.node? place with
  | some (.file before) => return t.put place (.file (before ++ bytes))
  | _ => return t.put place (.file bytes)

end Tree

end SymbolSearch.Files
