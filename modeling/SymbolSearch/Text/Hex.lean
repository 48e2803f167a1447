/-!
# Hexadecimal digits

## Main definitions

* `Text.hexValue?` — the value of a digit of either letter case
* `Text.hexDigit` — the digit of a value, in small letters or in capitals
-/

namespace SymbolSearch.Text

/-- The value of a hexadecimal digit of either letter case. -/
def hexValue? (c : Char) : Option Nat :=
  if c.isDigit then some (c.toNat - '0'.toNat)
  else if 'a' ≤ c ∧ c ≤ 'f' then some (c.toNat - 'a'.toNat + 10)
  else if 'A' ≤ c ∧ c ≤ 'F' then some (c.toNat - 'A'.toNat + 10)
  else none

/-- The hexadecimal digit of a value below sixteen, with letters from `first` on. -/
def hexDigit (first : Char) (n : Nat) : Char :=
  if n < 10 then Char.ofNat ('0'.toNat + n) else Char.ofNat (first.toNat + (n - 10))

end SymbolSearch.Text
