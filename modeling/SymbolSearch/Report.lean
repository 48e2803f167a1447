import SymbolSearch.Json.Printer
import SymbolSearch.Query.Search
import SymbolSearch.Text.Pieces

/-!
# Reports

The hits of a search are shown as one line each or as a JSON document.

## Main definitions

* `Format` — the two forms of a report
* `Report.lines` — a line for each hit
* `Report.document` — all hits as JSON
* `Report.render` — the report in a given form
-/

namespace SymbolSearch

/-- The form of a report. -/
inductive Format where
  | text
  | json
  deriving DecidableEq, Repr, Inhabited

namespace Format

/-- The name of a form. -/
def name : Format → String
  | text => "text"
  | json => "json"

/-- The form with exactly this name. -/
def ofName? (s : String) : Option Format := [text, json].find? (fun f => f.name == s)

@[simp] theorem ofName?_name (f : Format) : ofName? f.name = some f := by cases f <;> decide

end Format

namespace Report

open Query

/-- The names of the roles in a mask, divided by commas. -/
def roleText (roles : Roles) : String := ", ".intercalate roles.names

/-- A hit on one line: file, line and column, then its roles. -/
def line (hit : Hit) : String :=
  let o := hit.occurrence
  o.file ++ ":" ++ toString o.line.toNat ++ ":" ++ toString o.column.toNat ++ ": " ++
    roleText o.roles

/-- A line for each hit; a search without hits is told as such. -/
def lines (symbol : String) (hits : List Hit) : String :=
  if hits.isEmpty then "symbol not found: " ++ symbol else "\n".intercalate (hits.map line)

/-- A hit as JSON. -/
def hitDocument (hit : Hit) : Json :=
  let o := hit.occurrence
  Json.record
    [("file", Json.text o.file),
     ("line", .int o.line.toNat),
     ("column", .int o.column.toNat),
     ("endLine", .int o.endLine.toNat),
     ("endColumn", .int o.endColumn.toNat),
     ("role", Json.text (roleText o.roles)),
     ("isDefinition", .bool (o.roles.has .definition)),
     ("isReference", .bool (o.roles.has .reference)),
     ("isImport", .bool (o.roles.has .imported)),
     ("isExport", .bool (o.roles.has .exported))]

/-- All hits as JSON, with the symbol searched for and their number. -/
def document (symbol : String) (hits : List Hit) : Json :=
  Json.record
    [("symbol", Json.text symbol),
     ("occurrences", .arr (hits.map hitDocument)),
     ("count", .int hits.length)]

/-- The report in a given form. -/
def render (format : Format) (symbol : String) (hits : List Hit) : String :=
  match format with
  | .text => lines symbol hits
  | .json => String.ofList (document symbol hits).pretty

end Report

end SymbolSearch
