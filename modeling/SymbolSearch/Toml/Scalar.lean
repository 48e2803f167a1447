import SymbolSearch.Data.Decimal
import SymbolSearch.Text.Hex
import SymbolSearch.Text.Pieces
import SymbolSearch.Toml.Value

/-!
# Words in TOML

Truth values, numbers, dates and times are words without blanks; only between a date and a time may
a blank stand.

## Main definitions

* `Toml.integer?`, `Toml.isReal` — numbers
* `Toml.isDate`, `Toml.isTime` — dates and times
* `Toml.scanScalar` — a word and what follows it
-/

namespace SymbolSearch.Toml

/-- The characters that words consist of. -/
def isWordChar (c : Char) : Bool :=
  c.isAlphanum || c == '_' || c == '+' || c == '-' || c == '.' || c == ':'

/-! ### Numbers -/

/-- Digits of a class without the underscores between them. -/
def digits? (p : Char → Bool) (s : List Char) : Option (List Char) :=
  let groups := Text.splitOn '_' s
  if groups.all (fun g => !g.isEmpty && g.all p) then some groups.flatten else none

/-- Decimal digits without a zero before others. -/
def wholeDigits? (s : List Char) : Option (List Char) :=
  match digits? Char.isDigit s with
  | some ('0' :: _ :: _) => none
  | found => found

/-- A word without its sign, and whether that was a minus. -/
def unsign : List Char → Bool × List Char
  | '-' :: rest => (true, rest)
  | '+' :: rest => (false, rest)
  | s => (false, s)

/-- The number that digits to a base stand for. -/
def valueInBase (base : Nat) (digits : List Char) : Nat :=
  digits.foldl (fun n c => base * n + (Text.hexValue? c).getD 0) 0

/-- Whether a character is a digit to a base. -/
def isDigitInBase (base : Nat) (c : Char) : Bool := (Text.hexValue? c).any (· < base)

/-- An integer written to a base. -/
def integerInBase? (base : Nat) (s : List Char) : Option Int := do
  let n := valueInBase base (← digits? (isDigitInBase base) s)
  if n < 0x8000000000000000 then some n else none

/-- A decimal integer of 64 bits. -/
def decimalInteger? (s : List Char) : Option Int := do
  let (negative, s) := unsign s
  let n : Int := digitsValue (← wholeDigits? s)
  let n := if negative then -n else n
  if -0x8000000000000000 ≤ n ∧ n < 0x8000000000000000 then some n else none

/-- An integer in any spelling. -/
def integer? : List Char → Option Int
  | '0' :: 'x' :: rest => integerInBase? 16 rest
  | '0' :: 'o' :: rest => integerInBase? 8 rest
  | '0' :: 'b' :: rest => integerInBase? 2 rest
  | s => decimalInteger? s

/-- Whether a character marks an exponent. -/
def marksExponent (c : Char) : Bool := c == 'e' || c == 'E'

/-- The exponent behind its mark; zero without one. -/
def exponent? : List Char → Option Int
  | [] => some 0
  | _ :: s => do
    let (negative, s) := unsign s
    let n : Int := digitsValue (← digits? Char.isDigit s)
    return if negative then -n else n

/-- The digits behind the point; none without one. -/
def fraction? : List Char → Option (List Char)
  | [] => some []
  | _ :: s => digits? Char.isDigit s

/-- The number that a word with a fraction or an exponent stands for. -/
def decimal? (s : List Char) : Option Decimal := do
  let (negative, s) := unsign s
  let mantissa := s.takeWhile (fun c => !marksExponent c)
  let whole ← wholeDigits? (mantissa.takeWhile (· != '.'))
  let fraction ← fraction? (mantissa.dropWhile (· != '.'))
  let exponent ← exponent? (s.dropWhile (fun c => !marksExponent c))
  return ⟨negative, digitsValue (whole ++ fraction), exponent - fraction.length⟩

/-- Whether a word is a number that is no integer. A positive one beyond the range of floating point
is refused. -/
def isReal (s : List Char) : Bool :=
  (unsign s).2 == ['i', 'n', 'f'] || (unsign s).2 == ['n', 'a', 'n'] ||
    ((s.contains '.' || s.any marksExponent) && (decimal? s).any fun d => d.negative || d.isFinite)

/-! ### Dates and times -/

/-- The number two digits stand for. -/
def twoDigits? (a b : Char) : Option Nat :=
  if a.isDigit && b.isDigit then some (10 * digitValue a + digitValue b) else none

/-- The number of days of a month. -/
def daysIn (year month : Nat) : Nat :=
  if month = 2 then
    if year % 4 = 0 ∧ (year % 100 ≠ 0 ∨ year % 400 = 0) then 29 else 28
  else if month = 4 ∨ month = 6 ∨ month = 9 ∨ month = 11 then 30
  else 31

/-- Whether a word is a date. -/
def isDate : List Char → Bool
  | [c, d, y, z, '-', m, n, '-', e, f] =>
    match twoDigits? c d, twoDigits? y z, twoDigits? m n, twoDigits? e f with
    | some century, some year, some month, some day =>
      1 ≤ month && month ≤ 12 && 1 ≤ day && day ≤ daysIn (100 * century + year) month
    | _, _, _, _ => false
  | _ => false

/-- Whether two digits are a number up to a bound. -/
def isUpTo (bound : Nat) (a b : Char) : Bool := (twoDigits? a b).any (· ≤ bound)

/-- Whether a text is the distance of a clock from universal time, or nothing. -/
def isOffset : List Char → Bool
  | [] => true
  | ['Z'] => true
  | ['z'] => true
  | [sign, h, i, ':', m, n] => (sign == '+' || sign == '-') && isUpTo 23 h i && isUpTo 59 m n
  | _ => false

/-- What follows a time of day at the start of a text. -/
def afterTime? : List Char → Option (List Char)
  | h :: i :: ':' :: m :: n :: ':' :: s :: t :: rest =>
    if isUpTo 23 h i && isUpTo 59 m n && isUpTo 60 s t then
      match rest with
      | '.' :: d :: more => if d.isDigit then some (more.dropWhile Char.isDigit) else none
      | '.' :: [] => none
      | _ => some rest
    else none
  | _ => none

/-- Whether a word is a time of day. -/
def isTime (s : List Char) : Bool := afterTime? s == some []

/-- Whether a word is a time of day with or without its offset. -/
def isZonedTime (s : List Char) : Bool := (afterTime? s).any isOffset

/-- Whether a word is a date and a time joined by a letter. -/
def isDateTime (s : List Char) : Bool :=
  isDate (s.take 10) &&
    match s.drop 10 with
    | 'T' :: time => isZonedTime time
    | 't' :: time => isZonedTime time
    | _ => false

/-! ### Words -/

/-- The value of a word. -/
def wordValue? (word : List Char) : Option Value :=
  if word = ['t', 'r', 'u', 'e'] then some (.bool true)
  else if word = ['f', 'a', 'l', 's', 'e'] then some (.bool false)
  else if isDate word || isTime word || isDateTime word then some (.date (String.ofList word))
  else
    match integer? word with
    | some n => some (.int n)
    | none => if isReal word then some (.real (String.ofList word)) else none

/-- A word and what follows it; a date takes a time behind one blank along. -/
def scanScalar (s : List Char) : Option (Value × List Char) := do
  let word := s.takeWhile isWordChar
  let rest := s.dropWhile isWordChar
  let value ← wordValue? word
  match rest with
  | ' ' :: more =>
    let time := more.takeWhile isWordChar
    if isDate word && !time.isEmpty then
      if isZonedTime time then
        return (.date (String.ofList (word ++ ' ' :: time)), more.dropWhile isWordChar)
      else none
    else return (value, rest)
  | _ => return (value, rest)

end SymbolSearch.Toml
