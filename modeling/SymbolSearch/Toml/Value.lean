import SymbolSearch.Data.Source

/-!
# TOML values

The values that a TOML document gives to its keys, and how records are read from them.

## Main definitions

* `Toml.Value` — the values
-/

namespace SymbolSearch.Toml

/-- A TOML value. -/
inductive Value where
  /-- A text. -/
  | text (s : String)
  /-- An integer. -/
  | int (n : Int)
  /-- A number that is no integer, as it is spelled. -/
  | real (lexeme : String)
  /-- A truth value. -/
  | bool (b : Bool)
  /-- A date, a time or both, as it is spelled. -/
  | date (lexeme : String)
  /-- An array. -/
  | list (items : List Value)
  /-- A table with its members in order. -/
  | table (members : List (String × Value))

/-- TOML has no value for absence. The name of a choice is accompanied by an empty array or table, a
date counts as a table without members, and items of an array that a record has no field for are
overlooked. -/
instance : Source Value where
  isNull _ := false
  isUnit
    | .list [] => true
    | .table [] => true
    | _ => false
  bool?
    | .bool b => some b
    | _ => none
  int?
    | .int n => some n
    | _ => none
  text?
    | .text s => some s
    | _ => none
  items?
    | .list items => some items
    | _ => none
  members?
    | .table members => some members
    | .date _ => some []
    | _ => none
  allowsSurplus := true

end SymbolSearch.Toml
