import SymbolSearch.Text.Hex
import SymbolSearch.Text.Pieces

/-!
# Writing TOML

A document is written as blocks, each a header with the keys below it and a blank line between two
of them. A string takes the plainest of four forms that can hold it.

## Main definitions

* `Toml.quote` — a string in the form that suits it
* `Toml.Scalar`, `Toml.Block` — what is written
* `Toml.render` — a document
-/

namespace SymbolSearch.Toml

/-! ### Strings -/

/-- Control characters that only an escape can write. -/
def needsEscape (c : Char) : Bool :=
  (c.toNat < 0x20 && c != '\t' && c != '\n') || c.toNat == 0x7f

/-- The length of the longest run of a character, behind a run of length `run` whose longest
predecessor has length `longest`. -/
def longestRunFrom (c : Char) (run longest : Nat) : List Char → Nat
  | [] => max run longest
  | d :: rest =>
    if d = c then longestRunFrom c (run + 1) longest rest
    else longestRunFrom c 0 (max run longest) rest

/-- The length of the longest run of a character. -/
def longestRun (c : Char) (s : List Char) : Nat := longestRunFrom c 0 0 s

/-- The forms of a string. -/
inductive Form where
  /-- Between quotes. -/
  | basic
  /-- Between apostrophes. -/
  | literal
  /-- Between three quotes. -/
  | basicLines
  /-- Between three apostrophes. -/
  | literalLines
  deriving DecidableEq, Repr

/-- The form that suits a string: one that needs no escapes if there is one, a form on one line
before one on several, quotes before apostrophes. -/
def Form.of (s : List Char) : Form :=
  let control := s.any needsEscape
  let backslash := s.contains '\\'
  let lines := s.contains '\n'
  if !control && !backslash && longestRun '\x22' s == 0 && !lines then basic
  else if !control && longestRun '\x27' s == 0 && !lines then literal
  else if !control && !backslash && longestRun '\x22' s ≤ 2 then basicLines
  else if !control && longestRun '\x27' s ≤ 2 then literalLines
  else if lines then basicLines
  else basic

/-- A character other than a quote between quotes. -/
def escapeChar (multi : Bool) (c : Char) : List Char :=
  if c = '\\' then ['\\', '\\']
  else if c = '\x08' then ['\\', 'b']
  else if c = '\t' then ['\\', 't']
  else if c = '\x0c' then ['\\', 'f']
  else if c = '\r' then ['\\', 'r']
  else if c = '\n' then if multi then ['\n'] else ['\\', 'n']
  else if needsEscape c then
    ['\\', 'u', '0', '0', Text.hexDigit 'A' (c.toNat / 16), Text.hexDigit 'A' (c.toNat % 16)]
  else [c]

/-- The content of a string between quotes, behind a run of `run` quotes. On one line every quote is
escaped, on several lines each third of a run. -/
def escape (multi : Bool) (run : Nat) : List Char → List Char
  | [] => []
  | c :: rest =>
    if c = '\x22' then
      if multi && run < 2 then c :: escape multi (run + 1) rest
      else '\\' :: c :: escape multi 0 rest
    else escapeChar multi c ++ escape multi 0 rest

/-- A line break before the content of a string that has line breaks. -/
def lead (s : List Char) : List Char := if s.contains '\n' then ['\n'] else []

/-- Three quotes of a kind. -/
def triple (quote : Char) : List Char := [quote, quote, quote]

/-- A string with its quotes, in a given form. -/
def quoteAs (s : List Char) : Form → List Char
  | .basic => '\x22' :: escape false 0 s ++ ['\x22']
  | .literal => '\x27' :: s ++ ['\x27']
  | .basicLines => triple '\x22' ++ lead s ++ escape true 0 s ++ triple '\x22'
  | .literalLines => triple '\x27' ++ lead s ++ s ++ triple '\x27'

/-- A string with its quotes. -/
def quote (s : List Char) : List Char := quoteAs s (Form.of s)

/-! ### Documents -/

/-- A value that is written behind a key. -/
inductive Scalar where
  | text (s : String)
  | nat (n : Nat)
  | bool (b : Bool)
  /-- The empty array. -/
  | noItems
  deriving DecidableEq, Repr

/-- The text of a value. -/
def Scalar.render : Scalar → List Char
  | .text s => quote s.toList
  | .nat n => Nat.toDigits 10 n
  | .bool true => ['t', 'r', 'u', 'e']
  | .bool false => ['f', 'a', 'l', 's', 'e']
  | .noItems => ['[', ']']

/-- A header with the keys below it. -/
structure Block where
  /-- Whether the header opens an element of an array of tables. -/
  isElement : Bool
  /-- The keys of the header. -/
  header : List String
  /-- The keys and their values. -/
  entries : List (String × Scalar)
  deriving DecidableEq, Repr

namespace Block

/-- The line of the header. -/
def headerLine (b : Block) : List Char :=
  let name := Text.join ['.'] (b.header.map String.toList)
  if b.isElement then '[' :: '[' :: name ++ [']', ']', '\n'] else '[' :: name ++ [']', '\n']

/-- The line of a key. -/
def entryLine (entry : String × Scalar) : List Char :=
  entry.1.toList ++ [' ', '=', ' '] ++ entry.2.render ++ ['\n']

/-- The lines of a block. -/
def render (b : Block) : List Char := b.headerLine ++ b.entries.flatMap entryLine

end Block

/-- A document of blocks with a blank line between each two. -/
def render (blocks : List Block) : List Char := Text.join ['\n'] (blocks.map Block.render)

end SymbolSearch.Toml
