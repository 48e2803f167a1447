import SymbolSearch.Symbol.Kind

/-!
# Documents of an index file

An index file lists documents, each with the records of the symbols that occur in it. Records are
kept as they were read: their numbers are the signed words of the file and need not make sense.

## Main definitions

* `Record` — one occurrence as an index file states it
* `Document` — a source file and its records
-/

namespace SymbolSearch

/-- One occurrence of a symbol, as an index file states it. -/
structure Record where
  /-- The symbol that occurs. -/
  symbol : String
  /-- The mask of its roles. -/
  roles : Int32
  /-- Start line, start column, end line (left out when it is the start line), end column. -/
  range : List Int32
  /-- The kind, where the file tells it. -/
  kind : Option SymbolKind
  deriving DecidableEq, Repr, Inhabited

/-- A source file with the records of its occurrences. -/
structure Document where
  /-- The path of the source file. -/
  path : String
  /-- The records, in the order of the file. -/
  records : List Record
  deriving DecidableEq, Repr, Inhabited

end SymbolSearch
