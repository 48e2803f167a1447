import SymbolSearch.Toml.Quoted
import SymbolSearch.Toml.Scalar
import SymbolSearch.Toml.Table

/-!
# Reading TOML

A document is a list of lines: keys with their values, headers, comments and blank lines. Only
arrays and strings between three quotes run over several lines.

## Main definitions

* `Toml.scanKey` — a key, plain or dotted
* `Toml.scanValue` — a value
* `Toml.parse?` — the table of a whole document
-/

namespace SymbolSearch.Toml

/-! ### Between values -/

/-- A text without the blanks at its start. -/
def skipSpace (s : List Char) : List Char := s.dropWhile isSpace

/-- What follows a comment at the start of a text, if there is one. -/
def skipComment : List Char → List Char
  | '#' :: rest => rest.dropWhile isPrintable
  | s => s

/-- What follows the end of a line: blanks, a comment and a line break or the end of the text. -/
def afterLine? (s : List Char) : Option (List Char) :=
  match skipComment (skipSpace s) with
  | [] => some []
  | c :: rest => newline? (c :: rest)

/-- A text without the blanks, line breaks and comments at its start; `inComment` tells whether it
starts inside a comment. -/
def skipTrivia (inComment : Bool) : List Char → List Char
  | [] => []
  | c :: rest =>
    if startsNewline c rest then skipTrivia false rest
    else if inComment then if isPrintable c then skipTrivia true rest else c :: rest
    else if isSpace c then skipTrivia false rest
    else if c = '#' then skipTrivia true rest
    else c :: rest

/-! ### Keys -/

/-- The characters of a key without quotes. -/
def isBareKeyChar (c : Char) : Bool := c.isAlphanum || c == '_' || c == '-'

/-- A single key. -/
def scanSimpleKey (s : List Char) : Option (String × List Char) :=
  match s.head? with
  | some '\x22' => (scanLineString s).map fun (key, rest) => (String.ofList key, rest)
  | some '\x27' => (scanLineString s).map fun (key, rest) => (String.ofList key, rest)
  | _ =>
    let key := s.takeWhile isBareKeyChar
    if key.isEmpty then none else some (String.ofList key, s.dropWhile isBareKeyChar)

/-- A key of at most `left` parts with dots between them: the parts before the last, and the last.
Blanks may stand around each part. -/
def scanKey : Nat → List Char → Option ((List String × String) × List Char)
  | 0, _ => none
  | left + 1, s => do
    let (key, rest) ← scanSimpleKey (skipSpace s)
    match skipSpace rest with
    | '.' :: rest =>
      let ((keys, last), rest) ← scanKey left rest
      return ((key :: keys, last), rest)
    | rest => return (([], key), rest)

/-- The greatest number of parts a key may have, and of arrays and tables a value may be nested in. -/
def maxDepth : Nat := 79

/-! ### Values -/

/-- What reads a value at the start of a text. -/
abbrev ValueScanner := List Char → Option (Value × List Char)

/-- The items of an array up to its end, behind those already read, in reverse. Every item takes at
least one character, so the length of the text is fuel enough. -/
def scanItems (element : ValueScanner) : Nat → List Value → List Char → Option (Value × List Char)
  | 0, _, _ => none
  | fuel + 1, items, s =>
    match skipTrivia false s with
    | ']' :: rest => some (.list items.reverse, rest)
    | s => do
      let (v, s) ← element s
      match skipTrivia false s with
      | ',' :: rest => scanItems element fuel (v :: items) rest
      | ']' :: rest => return (.list (v :: items).reverse, rest)
      | _ => none

/-- A key with its value behind an equals sign. -/
def scanPair (element : ValueScanner) (s : List Char) :
    Option ((List String × String × Value) × List Char) := do
  let ((keys, key), s) ← scanKey maxDepth s
  match s with
  | '=' :: s =>
    let (v, s) ← element (skipSpace s)
    return ((keys, key, v), s)
  | _ => none

/-- The pairs of an inline table up to its end, behind the members already read. -/
def scanPairs (element : ValueScanner) : Nat → Members → List Char → Option (Value × List Char)
  | 0, _, _ => none
  | fuel + 1, members, s => do
    let ((keys, key, v), s) ← scanPair element s
    let members ← assign? keys key v members
    match skipSpace s with
    | ',' :: rest => scanPairs element fuel members rest
    | '\x7d' :: rest => return (.table (finishMembers members), rest)
    | _ => none

/-- An inline table behind its opening brace. -/
def scanInlineTable (element : ValueScanner) (s : List Char) : Option (Value × List Char) :=
  match skipSpace s with
  | '\x7d' :: rest => some (.table [], rest)
  | s => scanPairs element s.length [] s

/-- A value that may nest arrays and tables up to `depth` levels. -/
def scanValue : Nat → ValueScanner
  | depth, s =>
    match s.head?, depth with
    | some '\x22', _ => (scanString s).map fun (text, rest) => (.text (String.ofList text), rest)
    | some '\x27', _ => (scanString s).map fun (text, rest) => (.text (String.ofList text), rest)
    | some '[', 0 => none
    | some '[', depth + 1 => scanItems (scanValue depth) s.length [] s.tail
    | some '\x7b', 0 => none
    | some '\x7b', depth + 1 => scanInlineTable (scanValue depth) s.tail
    | _, _ => scanScalar s

/-! ### Documents -/

/-- A document read in part: the top table, and the keys of the header that was read last. -/
structure Draft where
  /-- The members of the top table. -/
  members : Members
  /-- The keys of the last header. -/
  header : List String

namespace Draft

/-- Nothing read yet. -/
def empty : Draft := ⟨[], []⟩

/-- A key in the table of the last header gets a value. -/
def assign? (keys : List String) (key : String) (v : Value) (draft : Draft) : Option Draft := do
  let members ← changeHeader? (Toml.assign? keys key v) draft.header draft.members
  return { draft with members }

/-- A table is opened. -/
def openTable? (keys : List String) (key : String) (draft : Draft) : Option Draft := do
  return ⟨← Toml.openTable? keys key draft.members, keys ++ [key]⟩

/-- An element of an array of tables is opened. -/
def openElement? (keys : List String) (key : String) (draft : Draft) : Option Draft := do
  return ⟨← Toml.openElement? keys key draft.members, keys ++ [key]⟩

end Draft

/-- A header behind its opening bracket. -/
def scanHeader (draft : Draft) (s : List Char) : Option (Draft × List Char) := do
  let ((keys, key), s) ← scanKey maxDepth s
  match s with
  | ']' :: rest => return (← draft.openTable? keys key, rest)
  | _ => none

/-- A header of an element behind its two opening brackets. -/
def scanElementHeader (draft : Draft) (s : List Char) : Option (Draft × List Char) := do
  let ((keys, key), s) ← scanKey maxDepth s
  match s with
  | ']' :: ']' :: rest => return (← draft.openElement? keys key, rest)
  | _ => none

/-- A line other than a blank one, without its end. -/
def scanLine (draft : Draft) : List Char → Option (Draft × List Char)
  | '[' :: '[' :: rest => scanElementHeader draft rest
  | '[' :: rest => scanHeader draft rest
  | '#' :: rest => some (draft, '#' :: rest)
  | s => do
    let ((keys, key, v), s) ← scanPair (scanValue maxDepth) s
    return (← draft.assign? keys key v, s)

/-- The lines of a document, behind those already read. Every line takes at least one character, so
the length of the text is fuel enough. -/
def scanLines : Nat → Draft → List Char → Option Draft
  | 0, draft, s => if s.isEmpty then some draft else none
  | fuel + 1, draft, s =>
    match skipSpace s with
    | [] => some draft
    | c :: rest =>
      match newline? (c :: rest) with
      | some rest => scanLines fuel draft rest
      | none => do
        let (draft, s) ← scanLine draft (c :: rest)
        scanLines fuel draft (← afterLine? s)

/-- A text without a byte order mark at its start. -/
def dropMark : List Char → List Char
  | c :: rest => if c = '\ufeff' then rest else c :: rest
  | [] => []

/-- The table of a whole document. -/
def parse? (s : List Char) : Option Value := do
  let draft ← scanLines s.length Draft.empty (dropMark s)
  return .table (finishMembers draft.members)

end SymbolSearch.Toml
