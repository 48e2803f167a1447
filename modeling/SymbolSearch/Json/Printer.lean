import SymbolSearch.Json.Value
import SymbolSearch.Text.Hex

/-!
# Writing JSON

A value is written on one line without blanks, or over several lines with two blanks for each level
of nesting. In strings only quotes, backslashes and control characters are escaped.

## Main definitions

* `Json.quote` — a string with its quotes
* `Json.compact` — a value on one line
* `Json.pretty` — a value over several lines
-/

namespace SymbolSearch.Json

/-- A character inside a string. -/
def escapeChar (c : Char) : List Char :=
  if c = '\x22' then ['\\', '\x22']
  else if c = '\\' then ['\\', '\\']
  else if c = '\n' then ['\\', 'n']
  else if c = '\r' then ['\\', 'r']
  else if c = '\t' then ['\\', 't']
  else if c = '\x08' then ['\\', 'b']
  else if c = '\x0c' then ['\\', 'f']
  else if c.toNat < 0x20 then
    ['\\', 'u', '0', '0', Text.hexDigit 'a' (c.toNat / 16), Text.hexDigit 'a' (c.toNat % 16)]
  else [c]

/-- A string with its quotes; one without a text is written as half a surrogate pair. -/
def quote : Literal → List Char
  | some s => '\x22' :: s.toList.flatMap escapeChar ++ ['\x22']
  | none => ['\x22', '\\', 'u', 'd', '8', '0', '0', '\x22']

/-- An integer in decimal digits. -/
def intText (n : Int) : List Char :=
  if n < 0 then '-' :: Nat.toDigits 10 n.natAbs else Nat.toDigits 10 n.natAbs

/-- A number with its exponent. -/
def decimalText (d : Decimal) : List Char :=
  (if d.negative then ['-'] else []) ++ Nat.toDigits 10 d.mantissa ++ ['e'] ++ intText d.exponent

mutual

/-- A value on one line, without blanks. -/
def compact : Json → List Char
  | .null => ['n', 'u', 'l', 'l']
  | .bool true => ['t', 'r', 'u', 'e']
  | .bool false => ['f', 'a', 'l', 's', 'e']
  | .int n => intText n
  | .real d => decimalText d
  | .str s => quote s
  | .arr items => '[' :: compactItems items ++ [']']
  | .obj members => '\x7b' :: compactMembers members ++ ['\x7d']

/-- Items with commas between them. -/
def compactItems : List Json → List Char
  | [] => []
  | [v] => compact v
  | v :: w :: rest => compact v ++ ',' :: compactItems (w :: rest)

/-- Members with commas between them. -/
def compactMembers : List (Literal × Json) → List Char
  | [] => []
  | [(key, v)] => quote key ++ ':' :: compact v
  | (key, v) :: m :: rest => quote key ++ ':' :: compact v ++ ',' :: compactMembers (m :: rest)

end

/-- A line break and the blanks of a level. -/
def newline (level : Nat) : List Char := '\n' :: List.replicate (2 * level) ' '

mutual

/-- A value over several lines, inside `level` open arrays and objects. -/
def prettyAt (level : Nat) : Json → List Char
  | .null => ['n', 'u', 'l', 'l']
  | .bool true => ['t', 'r', 'u', 'e']
  | .bool false => ['f', 'a', 'l', 's', 'e']
  | .int n => intText n
  | .real d => decimalText d
  | .str s => quote s
  | .arr [] => ['[', ']']
  | .arr (v :: rest) =>
    '[' :: newline (level + 1) ++ prettyItems (level + 1) (v :: rest) ++ newline level ++ [']']
  | .obj [] => ['\x7b', '\x7d']
  | .obj (m :: rest) =>
    '\x7b' :: newline (level + 1) ++ prettyMembers (level + 1) (m :: rest) ++ newline level ++
      ['\x7d']

/-- Items, each on lines of its own. -/
def prettyItems (level : Nat) : List Json → List Char
  | [] => []
  | [v] => prettyAt level v
  | v :: w :: rest => prettyAt level v ++ ',' :: newline level ++ prettyItems level (w :: rest)

/-- Members, each on lines of its own. -/
def prettyMembers (level : Nat) : List (Literal × Json) → List Char
  | [] => []
  | [(key, v)] => quote key ++ ':' :: ' ' :: prettyAt level v
  | (key, v) :: m :: rest =>
    quote key ++ ':' :: ' ' :: prettyAt level v ++ ',' :: newline level ++
      prettyMembers level (m :: rest)

end

/-- A value over several lines. -/
def pretty (v : Json) : List Char := prettyAt 0 v

end SymbolSearch.Json
