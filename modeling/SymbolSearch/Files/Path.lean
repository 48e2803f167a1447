import SymbolSearch.Text.Pieces

/-!
# Paths

A path is a Unicode text with slashes. Paths are joined and shortened as texts, without a look at
the files they name.

## Main definitions

* `Path.join` — a path below another
* `Path.parent?` — the path above a path
* `Path.ancestors` — a path and the paths above it
* `Path.isTooLong`, `Path.isNameTooLong` — the limits on paths and on the names in them
-/

namespace SymbolSearch.Path

/-- Whether a path is too long to be looked up: it has to take fewer than 4096 bytes. -/
def isTooLong (path : String) : Bool := 4096 ≤ path.utf8ByteSize

/-- Whether a name is too long to be in a directory: it may take 255 bytes. -/
def isNameTooLong (name : String) : Bool := 255 < name.utf8ByteSize

/-- Whether a path has a character that no path may have. -/
def hasNul (path : String) : Bool := path.toList.contains '\x00'

/-- Whether a path starts at the root. -/
def isAbsolute (path : String) : Bool := path.toList.head? == some '/'

/-- A path below another; an absolute path stays as it is. -/
def join (base path : String) : String :=
  if isAbsolute path || base.isEmpty then path
  else if base.toList.getLast? == some '/' then base ++ path
  else base ++ "/" ++ path

/-- Whether a piece between slashes is a component: it is not empty and not a single dot. -/
def isComponent (piece : List Char) : Bool := !piece.isEmpty && piece != ['.']

/-- Whether a start of a path ends with a component. `taken` is the start and `piece` what stands in
it behind the last slash, both in reverse. A dot that a path begins with counts as a component. -/
def endsComponent (taken piece : List Char) : Bool := isComponent piece || taken == ['.']

/-- The starts of a path that end with a component, the shortest first. `taken` is what was read of
the path and `piece` what was read since the last slash, both in reverse. -/
def startsFrom (taken piece : List Char) : List Char → List (List Char)
  | [] => if endsComponent taken piece then [taken.reverse] else []
  | c :: rest =>
    if c = '/' then
      if endsComponent taken piece then taken.reverse :: startsFrom (c :: taken) [] rest
      else startsFrom (c :: taken) [] rest
    else startsFrom (c :: taken) (c :: piece) rest

/-- What is left of a path without its components: the root, or nothing if the path is relative. -/
def top (path : String) : String := if isAbsolute path then "/" else ""

/-- The paths above a path, the longest first: each drops one more component. -/
def parents (path : String) : List String :=
  ((top path :: (startsFrom [] [] path.toList).map String.ofList).dropLast).reverse

/-- The path above a path, which drops its last component. -/
def parent? (path : String) : Option String := (parents path).head?

/-- A path and the paths above it. -/
def ancestors (path : String) : List String := path :: parents path

end SymbolSearch.Path
