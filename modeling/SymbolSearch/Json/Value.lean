import SymbolSearch.Data.Decimal

/-!
# JSON values

The tree of a JSON text, with as much of its spelling as reading a record from it can depend on:
integers are told from other numbers, members keep their order and may repeat, and a string whose
escapes leave half of a surrogate pair is kept as one without a text.

## Main definitions

* `Json` — the values
* `Json.isWhole` — whether everything in a value can be taken over as it stands
-/

namespace SymbolSearch

/-- The text of a string; `none` when an escape in it leaves half of a surrogate pair. -/
abbrev Literal := Option String

/-- A JSON value. -/
inductive Json where
  /-- The literal `null`. -/
  | null
  /-- A truth value. -/
  | bool (b : Bool)
  /-- A number without fraction and exponent, other than a negative zero. -/
  | int (n : Int)
  /-- Any other number. -/
  | real (d : Decimal)
  /-- A string. -/
  | str (s : Literal)
  /-- An array. -/
  | arr (items : List Json)
  /-- An object, its members as they are written. -/
  | obj (members : List (Literal × Json))

namespace Json

/-- A string that has a text. -/
def text (s : String) : Json := .str (some s)

/-- An object with the given keys. -/
def record (members : List (String × Json)) : Json :=
  .obj (members.map fun (key, value) => (some key, value))

/-- Whether all strings in a value have a text, all numbers are within the range of floating point
as the products they are computed as, and arrays and objects nest at most `depth` deep. -/
def isWhole : Nat → Json → Bool
  | _, .null => true
  | _, .bool _ => true
  | _, .int n => (Decimal.mk (n < 0) n.natAbs 0).isFiniteScaled
  | _, .real d => d.isFiniteScaled
  | _, .str s => s.isSome
  | 0, .arr _ => false
  | 0, .obj _ => false
  | depth + 1, .arr items => items.all (isWhole depth)
  | depth + 1, .obj members => members.all fun m => m.1.isSome && isWhole depth m.2

end Json

end SymbolSearch
