import SymbolSearch.Text.Hex

/-!
# Strings in TOML

A string stands between quotes, with escapes, or between apostrophes, taken as it is; between three
of either it may run over several lines.

## Main definitions

* `Toml.scanBasic` — the content of a string with escapes
* `Toml.scanLiteral` — the content of a string without escapes
* `Toml.scanString` — a string in any of the four forms
-/

namespace SymbolSearch.Toml

/-- The blanks inside a line. -/
def isSpace (c : Char) : Bool := c == ' ' || c == '\t'

/-- Characters that may stand in comments and strings: all but control characters, of which the tab
is allowed. -/
def isPrintable (c : Char) : Bool := c == '\t' || (0x20 ≤ c.toNat && c.toNat != 0x7f)

/-- What follows a line break at the start of a text. -/
def newline? : List Char → Option (List Char)
  | '\n' :: rest => some rest
  | '\r' :: '\n' :: rest => some rest
  | _ => none

/-- What is being read inside a string with escapes. -/
inductive Mode where
  /-- Plain content. -/
  | plain
  /-- Blanks and line breaks that are left out after a backslash at the end of a line. -/
  | trim
  /-- The code of an escape, with the number of digits that are missing and the value so far. -/
  | code (missing value : Nat)
  deriving DecidableEq, Repr

/-- The character that a backslash and a letter stand for. -/
def escaped? : Char → Option Char
  | '\x22' => some '\x22'
  | '\\' => some '\\'
  | 'b' => some '\x08'
  | 'f' => some '\x0c'
  | 'n' => some '\n'
  | 'r' => some '\r'
  | 't' => some '\t'
  | _ => none

/-- The character with a code, if there is one. -/
def charOfCode? (n : Nat) : Option Char := if n.isValidChar then some (Char.ofNat n) else none

/-- Whether nothing but blanks follows in the line. -/
def endsLine (s : List Char) : Bool := (newline? (s.dropWhile isSpace)).isSome

/-- Whether a line break starts with this character, given what follows it. -/
def startsNewline (c : Char) (rest : List Char) : Bool :=
  c == '\n' || (c == '\r' && rest.head? == some '\n')

/-- The end of a string over several lines at a quote, given what follows the quote: three quotes,
before which up to two more belong to the content. Gives those and what follows the string. -/
def closing? (quote : Char) (rest : List Char) : Option (List Char × List Char) :=
  let run := (rest.takeWhile (· == quote)).length
  if run < 2 then none
  else
    let more := min run 4 - 2
    some (List.replicate more quote, rest.drop (more + 2))

/-- The content of a string with escapes up to its closing quote, behind what is already taken, in
reverse, and what follows the string. -/
def scanBasic (multi : Bool) : Mode → List Char → List Char → Option (List Char × List Char)
  | _, _, [] => none
  | .code missing value, taken, c :: rest =>
    match Text.hexValue? c with
    | none => none
    | some digit =>
      if missing ≤ 1 then
        match charOfCode? (16 * value + digit) with
        | some ch => scanBasic multi .plain (ch :: taken) rest
        | none => none
      else scanBasic multi (.code (missing - 1) (16 * value + digit)) taken rest
  | mode, taken, c :: rest =>
    if mode == .trim && (isSpace c || startsNewline c rest) then scanBasic multi .trim taken rest
    else if c = '\x22' then
      if multi then
        match closing? '\x22' rest with
        | some (more, after) => some (taken.reverse ++ more, after)
        | none => scanBasic multi .plain (c :: taken) rest
      else some (taken.reverse, rest)
    else if c = '\\' then
      match rest with
      | [] => none
      | 'u' :: rest => scanBasic multi (.code 4 0) taken rest
      | 'U' :: rest => scanBasic multi (.code 8 0) taken rest
      | e :: after =>
        match escaped? e with
        | some ch => scanBasic multi .plain (ch :: taken) after
        | none =>
          if multi && endsLine (e :: after) then scanBasic multi .trim taken (e :: after) else none
    else if multi && c = '\n' then scanBasic multi .plain (c :: taken) rest
    else if multi && startsNewline c rest then scanBasic multi .plain taken rest
    else if isPrintable c then scanBasic multi .plain (c :: taken) rest
    else none

/-- The content of a string without escapes, behind what is already taken, in reverse, and what
follows the string. -/
def scanLiteral (multi : Bool) : List Char → List Char → Option (List Char × List Char)
  | _, [] => none
  | taken, c :: rest =>
    if c = '\x27' then
      if multi then
        match closing? '\x27' rest with
        | some (more, after) => some (taken.reverse ++ more, after)
        | none => scanLiteral multi (c :: taken) rest
      else some (taken.reverse, rest)
    else if multi && c = '\n' then scanLiteral multi (c :: taken) rest
    else if multi && startsNewline c rest then scanLiteral multi taken rest
    else if isPrintable c then scanLiteral multi (c :: taken) rest
    else none

/-- A text without a line break at its start. -/
def dropNewline (s : List Char) : List Char := (newline? s).getD s

/-- A string on one line. -/
def scanLineString : List Char → Option (List Char × List Char)
  | '\x22' :: rest => scanBasic false .plain [] rest
  | '\x27' :: rest => scanLiteral false [] rest
  | _ => none

/-- A string in any form. A line break right after three opening quotes is left out. -/
def scanString : List Char → Option (List Char × List Char)
  | '\x22' :: '\x22' :: '\x22' :: rest => scanBasic true .plain [] (dropNewline rest)
  | '\x27' :: '\x27' :: '\x27' :: rest => scanLiteral true [] (dropNewline rest)
  | s => scanLineString s

end SymbolSearch.Toml
