import SymbolSearch.Json.Source
import SymbolSearch.Occurrence
import SymbolSearch.Query.Search

/-!
# Occurrences and hits as JSON

Occurrences and hits are written as objects and read from objects or from lists of their fields. The
kind of an occurrence may be left out.

## Main definitions

* `Occurrence.toJson`, `Occurrence.ofSource?` — occurrences
* `Query.Hit.toJson`, `Query.Hit.ofSource?` — hits
-/

namespace SymbolSearch

open Source

namespace SymbolKind

/-- A kind as JSON: its name. -/
def toJson (k : SymbolKind) : Json := Json.text k.name

/-- Reads a kind by its exact name. -/
def ofSource? {α : Type} [Source α] (v : α) : Option SymbolKind := choice? ofExactName? v

/-- A kind that may be unknown. -/
def optionToJson : Option SymbolKind → Json
  | some k => k.toJson
  | none => .null

end SymbolKind

namespace Occurrence

/-- The names of the fields, in order. -/
def fieldNames : List String :=
  ["symbol", "filePath", "line", "column", "endLine", "endColumn", "roles", "kind"]

/-- The fields as JSON, in order. -/
def fieldValues (o : Occurrence) : List Json :=
  [Json.text o.symbol, Json.text o.file, .int o.line.toNat, .int o.column.toNat,
   .int o.endLine.toNat, .int o.endColumn.toNat, .int o.roles.mask.toNat,
   SymbolKind.optionToJson o.kind]

/-- An occurrence as JSON. -/
def toJson (o : Occurrence) : Json := Json.record (fieldNames.zip o.fieldValues)

/-- Reads an occurrence. -/
def ofSource? {α : Type} [Source α] (v : α) : Option Occurrence := do
  match ← slots? fieldNames v with
  | [symbol, file, line, column, endLine, endColumn, roles, kind] =>
    return { symbol := ← required text? symbol
             file := ← required text? file
             line := ← required uint32? line
             column := ← required uint32? column
             endLine := ← required uint32? endLine
             endColumn := ← required uint32? endColumn
             roles := ⟨← required uint32? roles⟩
             kind := ← optional SymbolKind.ofSource? kind }
  | _ => none

end Occurrence

namespace Query.Hit

/-- The names of the fields, in order. -/
def fieldNames : List String := Occurrence.fieldNames ++ ["isDefinition"]

/-- A hit as JSON. -/
def toJson (hit : Hit) : Json :=
  Json.record (fieldNames.zip (hit.occurrence.fieldValues ++ [.bool hit.isDefinition]))

/-- Reads a hit. -/
def ofSource? {α : Type} [Source α] (v : α) : Option Hit := do
  match ← slots? fieldNames v with
  | [symbol, file, line, column, endLine, endColumn, roles, kind, isDefinition] =>
    let occurrence : Occurrence :=
      { symbol := ← required text? symbol
        file := ← required text? file
        line := ← required uint32? line
        column := ← required uint32? column
        endLine := ← required uint32? endLine
        endColumn := ← required uint32? endColumn
        roles := ⟨← required uint32? roles⟩
        kind := ← optional SymbolKind.ofSource? kind }
    return ⟨occurrence, ← required bool? isDefinition⟩
  | _ => none

end Query.Hit

end SymbolSearch
