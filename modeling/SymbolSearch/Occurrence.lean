import SymbolSearch.Document
import SymbolSearch.Symbol.Roles

/-!
# Occurrences

A well-formed record of a document becomes an occurrence: a symbol, the file, the range it covers
and its roles.

## Main definitions

* `Span.ofRange?` — the range of a record as start and end
* `Occurrence.ofRecord?` — the occurrence of a well-formed record
* `Occurrence.position` — file, line and column
* `Occurrence.keepFirst` — a list with only the first occurrence at each position
-/

namespace SymbolSearch

/-- A range of text, by line and column of its start and its end. -/
structure Span where
  /-- The line of the start. -/
  line : UInt32
  /-- The column of the start. -/
  column : UInt32
  /-- The line of the end. -/
  endLine : UInt32
  /-- The column of the end. -/
  endColumn : UInt32
  deriving DecidableEq, Repr

namespace Span

/-- A coordinate of a record, refused when it is negative. -/
def coordinate? (n : Int32) : Option UInt32 := if n < 0 then none else some n.toUInt32

/-- Whether the end comes before the start. -/
def isReversed (s : Span) : Bool :=
  s.endLine < s.line || (s.endLine == s.line && s.endColumn < s.column)

/-- The range of a record. Three numbers stay on the start line, numbers after the fourth are
overlooked, and a reversed range is refused. -/
def ofRange? (range : List Int32) : Option Span := do
  let span ←
    match ← (range.take 4).mapM coordinate? with
    | [line, column, endColumn] => some ⟨line, column, line, endColumn⟩
    | [line, column, endLine, endColumn] => some ⟨line, column, endLine, endColumn⟩
    | _ => none
  if span.isReversed then none else some span

end Span

/-- An occurrence of a symbol in a source file. -/
structure Occurrence where
  /-- The symbol that occurs. -/
  symbol : String
  /-- The source file. -/
  file : String
  /-- The line of the start. -/
  line : UInt32
  /-- The column of the start. -/
  column : UInt32
  /-- The line of the end. -/
  endLine : UInt32
  /-- The column of the end. -/
  endColumn : UInt32
  /-- The roles it plays. -/
  roles : Roles
  /-- The kind of the symbol, where it is known. -/
  kind : Option SymbolKind
  deriving DecidableEq, Repr, Inhabited

namespace Occurrence

/-- The occurrence that a record of the document at `path` states, when the record is well-formed.
Its kind is the one the record tells, else `kind`. -/
def ofRecord? (path : String) (record : Record) (kind : SymbolKind) : Option Occurrence :=
  if record.symbol.isEmpty then none
  else
    (Span.ofRange? record.range).map fun span =>
      { symbol := record.symbol
        file := path
        line := span.line
        column := span.column
        endLine := span.endLine
        endColumn := span.endColumn
        roles := ⟨record.roles.toUInt32⟩
        kind := some (record.kind.getD kind) }

/-- Where an occurrence starts. -/
def position (o : Occurrence) : String × UInt32 × UInt32 := (o.file, o.line, o.column)

/-- Whether an occurrence plays the role of a definition. -/
def isDefinition (o : Occurrence) : Bool := o.roles.has .definition

/-- The occurrences whose positions are neither in `seen` nor at an earlier place of the list. -/
def keepUnseen (seen : List (String × UInt32 × UInt32)) : List Occurrence → List Occurrence
  | [] => []
  | o :: rest =>
    if seen.contains o.position then keepUnseen seen rest
    else o :: keepUnseen (o.position :: seen) rest

/-- The first occurrence at each position, in order. -/
def keepFirst (occurrences : List Occurrence) : List Occurrence := keepUnseen [] occurrences

/-- The occurrences of a symbol from implementation files and from declaration files in one list;
of several at one position the first stays, so an implementation wins over a declaration. -/
def merge (implementation declaration : List Occurrence) : List Occurrence :=
  keepFirst (implementation ++ declaration)

end Occurrence

end SymbolSearch
