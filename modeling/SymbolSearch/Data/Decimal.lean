/-!
# Decimal numbers

Numbers as data formats write them, with a sign, digits and a power of ten. What is kept of a number
that is no integer is enough to tell whether it is within the range of binary floating point.

## Main definitions

* `Decimal` — a signed multiple of a power of ten
* `roundToDouble` — the double-precision number nearest to a natural number
* `Decimal.isFinite` — whether the nearest double-precision number is finite
* `Decimal.isFiniteScaled` — whether the leading digits times the power of ten are finite
* `digitsValue` — the number a run of decimal digits stands for
-/

namespace SymbolSearch

/-- The number `mantissa · 10 ^ exponent`, with a sign that also zero has. -/
structure Decimal where
  /-- Whether a minus sign was written. -/
  negative : Bool
  /-- The digits. -/
  mantissa : Nat
  /-- The power of ten. -/
  exponent : Int
  deriving DecidableEq, Repr

/-- The least magnitude that rounds to infinity: half a unit above the greatest double. -/
def overflowBound : Nat := Nat.pow 2 1024 - Nat.pow 2 970

/-- The multiple of a unit nearest to a number, of two the one that is an even multiple. -/
def roundToUnit (unit n : Nat) : Nat :=
  let below := n / unit
  if unit < 2 * (n % unit) ∨ (unit = 2 * (n % unit) ∧ below % 2 = 1) then (below + 1) * unit
  else below * unit

/-- The number with at most 53 significant bits nearest to a number, a half going to the even
neighbour: below `overflowBound` it is the nearest double. -/
def roundToDouble (n : Nat) : Nat := roundToUnit (Nat.pow 2 (n.log2 + 1 - 53)) n

/-- The value of a decimal digit. -/
def digitValue (c : Char) : Nat := c.toNat - '0'.toNat

/-- The number a run of decimal digits stands for. -/
def digitsValue (digits : List Char) : Nat :=
  digits.foldl (fun n c => 10 * n + digitValue c) 0

namespace Decimal

/-- Whether the number rounds to a finite double. Magnitudes are told apart by their number of
digits first, so that no great power of ten is computed. -/
def isFinite (d : Decimal) : Bool :=
  let size : Int := d.exponent + (Nat.toDigits 10 d.mantissa).length
  if d.mantissa = 0 then true
  else if size ≤ 308 then true
  else if 310 ≤ size then false
  else if 0 ≤ d.exponent then d.mantissa * Nat.pow 10 d.exponent.toNat < overflowBound
  else d.mantissa < overflowBound * Nat.pow 10 (-d.exponent).toNat

/-- The number with only as many of its leading digits as fit 64 bits; the others count as zeros. -/
def leading (d : Decimal) : Decimal :=
  let size := (Nat.toDigits 10 d.mantissa).length
  -- Nineteen digits always fit, twenty may.
  let dropped :=
    if d.mantissa / Nat.pow 10 (size - 20) < 0x10000000000000000 then size - 20 else size - 19
  ⟨d.negative, d.mantissa / Nat.pow 10 dropped, d.exponent + dropped⟩

/-- Whether the number is finite when it is computed as a product of doubles: its leading digits and
the power of ten are rounded first, and then their product. Near the greatest double this differs
from `isFinite` either way. -/
def isFiniteScaled (d : Decimal) : Bool :=
  let d := d.leading
  if d.mantissa = 0 then true
  else if d.exponent ≤ 0 then true
  else if 308 < d.exponent then false
  else roundToDouble d.mantissa * roundToDouble (Nat.pow 10 d.exponent.toNat) < overflowBound

end Decimal

end SymbolSearch
