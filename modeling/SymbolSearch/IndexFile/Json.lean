import SymbolSearch.Document
import SymbolSearch.Json.Reader
import SymbolSearch.Json.Source
import SymbolSearch.Text.Blank
import SymbolSearch.Text.Pieces

/-!
# JSON index files

An index file may also be a JSON object with its documents. A document names its file by a relative
path or by a URI, and a record gives its range as a list of numbers or by the positions of its start
and its end.

## Main definitions

* `IndexFile.range?` — a range in either form
* `IndexFile.record?`, `IndexFile.document?` — records and documents
* `IndexFile.parseJson?` — the documents of a JSON index file
-/

namespace SymbolSearch.IndexFile

open Source

/-- A position by line and character, both of which may be left out. -/
structure Place where
  /-- The line. -/
  line : Option Int32
  /-- The character in the line. -/
  character : Option Int32

/-- Reads a position. -/
def place? (v : Json) : Option Place := do
  match ← slots? ["line", "character"] v with
  | [line, character] =>
    return ⟨← optional int32? line, ← optional int32? character⟩
  | _ => none

/-- A range from a start to an end. A missing coordinate of the start is zero, one of the end is
that of the start. -/
def rangeBetween (start stop : Option Place) : List Int32 :=
  let line := (start.bind Place.line).getD 0
  let character := (start.bind Place.character).getD 0
  [line, character, (stop.bind Place.line).getD line, (stop.bind Place.character).getD character]

/-- Reads a range given by its start and its end. -/
def placedRange? (v : Json) : Option (List Int32) := do
  match ← tableSlots? ["start", "end"] (← members? v) with
  | [start, stop] => return rangeBetween (← optional place? start) (← optional place? stop)
  | _ => none

/-- How deep arrays and objects may nest in a range, itself included. -/
def rangeDepth : Nat := 122

/-- Reads a range in either form. It is taken over whole before its form is known, so also what is
overlooked in it has to be in order. -/
def range? (v : Json) : Option (List Int32) :=
  if v.isWhole rangeDepth then
    match list? int32? v with
    | some range => some range
    | none => placedRange? v
  else none

/-- Reads a record; of two masks of roles the one under `role` counts. -/
def record? (v : Json) : Option Record := do
  match ← slots? ["symbol", "symbolRoles", "role", "range", "kind"] v with
  | [symbol, symbolRoles, role, range, kind] =>
    let symbol ← optional text? symbol
    let symbolRoles ← optional int32? symbolRoles
    let role ← optional int32? role
    let range ← optional range? range
    let kind ← optional text? kind
    return { symbol := symbol.getD ""
             roles := (role.or symbolRoles).getD 0
             range := range.getD []
             kind := kind.bind SymbolKind.ofName? }
  | _ => none

/-- The scheme of the URIs of files. -/
def fileScheme : List Char := "file:///".toList

/-- A text without the first occurrence of a part. -/
def removeFirst (part : List Char) : List Char → List Char
  | [] => []
  | c :: rest =>
    if part.isPrefixOf (c :: rest) then (c :: rest).drop part.length
    else c :: removeFirst part rest

/-- The path of a document: the relative path unless it is empty, else what a URI names. -/
def documentPath (relativePath uri : Option String) : String :=
  let path := relativePath.getD ""
  if path.isEmpty then String.ofList (removeFirst fileScheme (uri.getD "").toList) else path

/-- Reads a document. -/
def document? (v : Json) : Option Document := do
  match ← slots? ["relativePath", "uri", "occurrences"] v with
  | [relativePath, uri, occurrences] =>
    let relativePath ← optional text? relativePath
    let uri ← optional text? uri
    let records ← orDefault [] (list? record?) occurrences
    return ⟨documentPath relativePath uri, records⟩
  | _ => none

/-- Reads the documents of an index. -/
def documents? (v : Json) : Option (List Document) := do
  match ← slots? ["documents"] v with
  | [documents] => return (← optional (list? document?) documents).getD []
  | _ => none

/-- Whether a text is taken for a JSON index at first sight. -/
def looksLikeJson (s : List Char) : Bool := (Text.trim s).head? == some '\x7b'

/-- The documents of a JSON index file. -/
def parseJson? (s : List Char) : Option (List Document) := do
  if looksLikeJson s then documents? (← Json.parse? (Text.trim s)) else none

end SymbolSearch.IndexFile
