/-!
# Blank characters

The characters that separate words in symbols and may surround a text: those with the Unicode
property `White_Space`.

## Main definitions

* `Text.isBlank` — the property itself
* `Text.trim` — a text without the blanks at its ends
-/

namespace SymbolSearch.Text

/-- The code points with the property `White_Space`. -/
def isBlank (c : Char) : Bool :=
  let n := c.toNat
  (0x09 ≤ n && n ≤ 0x0D) || n == 0x20 || n == 0x85 || n == 0xA0 || n == 0x1680 ||
    (0x2000 ≤ n && n ≤ 0x200A) || n == 0x2028 || n == 0x2029 || n == 0x202F || n == 0x205F ||
    n == 0x3000

/-- A text without its leading blanks. -/
def trimLeft (s : List Char) : List Char := s.dropWhile isBlank

/-- A text without its trailing blanks. -/
def trimRight (s : List Char) : List Char := (s.reverse.dropWhile isBlank).reverse

/-- A text without the blanks at its ends. -/
def trim (s : List Char) : List Char := trimRight (trimLeft s)

end SymbolSearch.Text
