import SymbolSearch.Report

/-!
# Requests

A request is a query with the filters and the form of report that a user asked for. A text report
may fall back on a wider search and then carries a warning; a JSON report never does.

## Main definitions

* `Request` — what is asked for
* `Request.answer` — the hits and the warning
-/

namespace SymbolSearch

/-- What a user asks for. -/
structure Request where
  /-- The query. -/
  symbol : String
  /-- The index file to use; without it one is looked for. -/
  indexFile : Option String
  /-- The file that has to define the symbol. -/
  definingFile : Option String
  /-- The folder the occurrences have to be in. -/
  folder : Option String
  /-- The form of the report. -/
  format : Format
  deriving DecidableEq, Repr

/-- What a request finds. -/
structure Answer where
  /-- The hits. -/
  hits : List Query.Hit
  /-- A warning that the search was widened. -/
  warning : Option String
  deriving DecidableEq, Repr

namespace Request

open Query

/-- The filters of a request; the kind is guessed from the query. -/
def filter (request : Request) : Filter :=
  ⟨request.definingFile, request.folder, guessKind? request.symbol.toList⟩

/-- The warning that a symbol is not defined where it was asked for. -/
def notDefinedIn (symbol file : String) : String :=
  "Warning: Symbol '" ++ symbol ++ "' is not defined in '" ++ file ++
    "'. Showing all occurrences."

/-- What a request finds in an index. -/
def answer (index : Index) (request : Request) : Answer :=
  match request.format with
  | .json => ⟨find index request.symbol request.filter, none⟩
  | .text =>
    let found := findOrWiden index request.symbol request.filter
    let warning :=
      if found.widened then request.definingFile.map (notDefinedIn request.symbol) else none
    ⟨found.hits, warning⟩

/-- The report on what a request found. -/
def report (request : Request) (answer : Answer) : String :=
  Report.render request.format request.symbol answer.hits

end Request

end SymbolSearch
