import SymbolSearch.Toml.Value

/-!
# Building TOML tables

Tables come about in several ways: by a header, as a table above one that has a header, or by dotted
keys. How a table came about decides what may still be added to it.

## Main definitions

* `Toml.Origin`, `Toml.Node`, `Toml.Members` — tables under construction
* `Toml.assign?` — a key, plain or dotted, gets a value
* `Toml.openTable?`, `Toml.openElement?` — a header of a table, or of an element in an array of tables
* `Toml.Node.value` — the value of a finished node
-/

namespace SymbolSearch.Toml

/-- How a table came about. -/
inductive Origin where
  /-- It stands above a table that has a header. -/
  | implied
  /-- It was begun by a dotted key. -/
  | dotted
  /-- It has a header of its own. -/
  | header
  deriving DecidableEq, Repr

/-- What a key has been given so far. -/
inductive Node where
  /-- A value, to which nothing can be added. -/
  | value (v : Value)
  /-- A table. -/
  | table (origin : Origin) (members : List (String × Node))
  /-- An array of tables that each have a header. -/
  | tables (elements : List (List (String × Node)))

/-- The members of a table under construction. -/
abbrev Members := List (String × Node)

namespace Members

/-- The node under a key. -/
def node? (members : Members) (key : String) : Option Node := members.lookup key

/-- Puts a node under a key: a key that is there keeps its place. -/
def set (key : String) (node : Node) : Members → Members
  | [] => [(key, node)]
  | (k, n) :: rest => if k = key then (k, node) :: rest else (k, n) :: set key node rest

end Members

/-- Changes the members of the last element. -/
def changeLast? (change : Members → Option Members) : List Members → Option (List Members)
  | [] => none
  | [element] => (change element).map ([·])
  | element :: next :: rest => (changeLast? change (next :: rest)).map (element :: ·)

/-- Changes the members of the table that dotted keys lead to, where `isDotted` tells how the table
at hand came about. Missing tables are begun; a table with a header of its own cannot be entered,
and neither can one that a header implied be changed. -/
def changeDotted? (change : Members → Option Members) :
    List String → Bool → Members → Option Members
  | [], isDotted, members => if isDotted then change members else none
  | key :: keys, _, members =>
    match members.node? key with
    | none =>
      (changeDotted? change keys true []).map fun inner => members.set key (.table .dotted inner)
    | some (.value _) => none
    | some (.table .header _) => none
    | some (.table origin inner) =>
      (changeDotted? change keys (origin == .dotted) inner).map fun inner =>
        members.set key (.table origin inner)
    | some (.tables elements) =>
      (changeLast? (changeDotted? change keys false) elements).map fun elements =>
        members.set key (.tables elements)

/-- Adds a member under a key that is free. -/
def add? (key : String) (v : Value) (members : Members) : Option Members :=
  match members.node? key with
  | none => some (members.set key (.value v))
  | some _ => none

/-- Gives a value to a key with the dotted keys before it. -/
def assign? (keys : List String) (key : String) (v : Value) (members : Members) : Option Members :=
  match keys with
  | [] => add? key v members
  | first :: rest => changeDotted? (add? key v) (first :: rest) false members

/-- Changes the members of the table that the keys of a header lead to. Missing tables are implied,
and an array of tables is entered at its last element. -/
def changeHeader? (change : Members → Option Members) : List String → Members → Option Members
  | [], members => change members
  | key :: keys, members =>
    match members.node? key with
    | none =>
      (changeHeader? change keys []).map fun inner => members.set key (.table .implied inner)
    | some (.value _) => none
    | some (.table origin inner) =>
      (changeHeader? change keys inner).map fun inner => members.set key (.table origin inner)
    | some (.tables elements) =>
      (changeLast? (changeHeader? change keys) elements).map fun elements =>
        members.set key (.tables elements)

/-- The header of a table: the key is free or only implied so far. -/
def begin? (key : String) (members : Members) : Option Members :=
  match members.node? key with
  | none => some (members.set key (.table .header []))
  | some (.table .implied inner) => some (members.set key (.table .header inner))
  | some _ => none

/-- The header of one more element: the key is free or has such elements. -/
def beginElement? (key : String) (members : Members) : Option Members :=
  match members.node? key with
  | none => some (members.set key (.tables [[]]))
  | some (.tables elements) => some (members.set key (.tables (elements ++ [[]])))
  | some _ => none

/-- Opens the table with the header `keys` and `key`. -/
def openTable? (keys : List String) (key : String) (members : Members) : Option Members :=
  changeHeader? (begin? key) keys members

/-- Opens one more element of the array of tables with the header `keys` and `key`. -/
def openElement? (keys : List String) (key : String) (members : Members) : Option Members :=
  changeHeader? (beginElement? key) keys members

/-! ### Finished tables -/

mutual

/-- The value of a node. -/
def Node.finish : Node → Value
  | .value v => v
  | .table _ members => .table (finishMembers members)
  | .tables elements => .list (finishElements elements)

/-- The values of the members of a table. -/
def finishMembers : List (String × Node) → List (String × Value)
  | [] => []
  | (key, node) :: rest => (key, node.finish) :: finishMembers rest

/-- The elements of an array of tables. -/
def finishElements : List (List (String × Node)) → List Value
  | [] => []
  | members :: rest => .table (finishMembers members) :: finishElements rest

end

end SymbolSearch.Toml
