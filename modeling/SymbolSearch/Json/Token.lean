import SymbolSearch.Json.Value
import SymbolSearch.Text.Hex

/-!
# Tokens of a JSON text

The spelling of strings, numbers and punctuation, without regard to where they may stand.

## Main definitions

* `Json.Token` — the tokens
* `Json.next?` — the first token of a text and what follows it
* `Json.scanString`, `Json.scanNumber` — the tokens with an inner structure

## Main results

* `Json.length_of_next?` — a token takes at least one character
-/

namespace SymbolSearch.Json

/-- A token of a JSON text. -/
inductive Token where
  | openBrace
  | closeBrace
  | openBracket
  | closeBracket
  | comma
  | colon
  /-- A string, which may stand for itself or be the key of a member. -/
  | string (s : Literal)
  /-- Any other value that is neither an array nor an object. -/
  | scalar (v : Json)

/-- The blanks that may stand between tokens. -/
def isBlank (c : Char) : Bool := c == ' ' || c == '\n' || c == '\r' || c == '\t'

/-! ### Strings -/

/-- A piece of a string: a character, or a code of 16 bits given by an escape. -/
inductive Piece where
  | char (c : Char)
  | code (n : Nat)
  deriving DecidableEq, Repr

/-- The code that four hexadecimal digits stand for. -/
def hexCode? (a b c d : Char) : Option Nat := do
  let a ← Text.hexValue? a
  let b ← Text.hexValue? b
  let c ← Text.hexValue? c
  let d ← Text.hexValue? d
  return ((a * 16 + b) * 16 + c) * 16 + d

/-- The character that a backslash and a letter stand for. -/
def escaped? : Char → Option Char
  | '\x22' => some '\x22'
  | '\\' => some '\\'
  | '/' => some '/'
  | 'b' => some '\x08'
  | 'f' => some '\x0c'
  | 'n' => some '\n'
  | 'r' => some '\r'
  | 't' => some '\t'
  | _ => none

/-- The pieces of a string up to its closing quote, behind those already read, and what follows. -/
def scanString (read : List Piece) : List Char → Option (List Piece × List Char)
  | '\x22' :: rest => some (read.reverse, rest)
  | '\\' :: 'u' :: a :: b :: c :: d :: rest =>
    match hexCode? a b c d with
    | some n => scanString (.code n :: read) rest
    | none => none
  | '\\' :: e :: rest =>
    match escaped? e with
    | some c => scanString (.char c :: read) rest
    | none => none
  | c :: rest => if c.toNat < 0x20 || c == '\\' then none else scanString (.char c :: read) rest
  | [] => none

/-- Whether a code is the first half of a surrogate pair. -/
def isHigh (n : Nat) : Bool := 0xD800 ≤ n && n < 0xDC00

/-- Whether a code is the second half of a surrogate pair. -/
def isLow (n : Nat) : Bool := 0xDC00 ≤ n && n < 0xE000

/-- The character that a surrogate pair stands for. -/
def pairChar (high low : Nat) : Char :=
  Char.ofNat (0x10000 + (high - 0xD800) * 0x400 + (low - 0xDC00))

/-- The text of a string behind the characters already taken, in reverse: codes are characters, two
halves of a surrogate pair are one, and a half alone leaves no text. -/
def assemble (taken : List Char) : List Piece → Literal
  | [] => some (String.ofList taken.reverse)
  | .char c :: rest => assemble (c :: taken) rest
  | .code n :: .code m :: rest =>
    if isHigh n then if isLow m then assemble (pairChar n m :: taken) rest else none
    else if isLow n then none
    else assemble (Char.ofNat n :: taken) (.code m :: rest)
  | .code n :: rest => if isHigh n || isLow n then none else assemble (Char.ofNat n :: taken) rest

/-! ### Numbers -/

/-- A run of digits and what follows it. -/
def scanDigits (s : List Char) : List Char × List Char :=
  (s.takeWhile Char.isDigit, s.dropWhile Char.isDigit)

/-- The digits before the point: a single zero, or digits that do not start with one. -/
def scanWhole : List Char → Option (List Char × List Char)
  | '0' :: rest => some (['0'], rest)
  | s =>
    match scanDigits s with
    | ([], _) => none
    | found => some found

/-- The digits after a point, if there is one. -/
def scanFraction : List Char → Option (Option (List Char) × List Char)
  | '.' :: rest =>
    match scanDigits rest with
    | ([], _) => none
    | (digits, rest) => some (some digits, rest)
  | s => some (none, s)

/-- The sign of an exponent. -/
def scanSign : List Char → Bool × List Char
  | '-' :: rest => (true, rest)
  | '+' :: rest => (false, rest)
  | s => (false, s)

/-- The exponent behind its mark, if there is one. -/
def scanExponent : List Char → Option (Option Int × List Char)
  | c :: rest =>
    if c = 'e' ∨ c = 'E' then
      match scanDigits (scanSign rest).2 with
      | ([], _) => none
      | (digits, after) =>
        let n : Int := digitsValue digits
        some (some (if (scanSign rest).1 then -n else n), after)
    else some (none, c :: rest)
  | [] => some (none, [])

/-- The number with the given parts. -/
def makeNumber (negative : Bool) (whole : List Char) (fraction : Option (List Char))
    (exponent : Option Int) : Json :=
  let n := digitsValue whole
  match fraction, exponent with
  | none, none =>
    if negative then if n = 0 then .real ⟨true, 0, 0⟩ else .int (-n) else .int n
  | _, _ =>
    let digits := fraction.getD []
    .real ⟨negative, digitsValue (whole ++ digits), exponent.getD 0 - digits.length⟩

/-- A number without its sign, and what follows it. -/
def scanMagnitude (negative : Bool) (s : List Char) : Option (Json × List Char) := do
  let (whole, s) ← scanWhole s
  let (fraction, s) ← scanFraction s
  let (exponent, s) ← scanExponent s
  return (makeNumber negative whole fraction exponent, s)

/-- A number and what follows it. -/
def scanNumber : List Char → Option (Json × List Char)
  | '-' :: rest => scanMagnitude true rest
  | s => scanMagnitude false s

/-! ### All tokens -/

/-- The first token of a text and what follows it. -/
def next? : List Char → Option (Token × List Char)
  | '\x7b' :: rest => some (.openBrace, rest)
  | '\x7d' :: rest => some (.closeBrace, rest)
  | '[' :: rest => some (.openBracket, rest)
  | ']' :: rest => some (.closeBracket, rest)
  | ',' :: rest => some (.comma, rest)
  | ':' :: rest => some (.colon, rest)
  | '\x22' :: rest =>
    match scanString [] rest with
    | some (pieces, rest) => some (.string (assemble [] pieces), rest)
    | none => none
  | 'n' :: 'u' :: 'l' :: 'l' :: rest => some (.scalar .null, rest)
  | 't' :: 'r' :: 'u' :: 'e' :: rest => some (.scalar (.bool true), rest)
  | 'f' :: 'a' :: 'l' :: 's' :: 'e' :: rest => some (.scalar (.bool false), rest)
  | s =>
    match scanNumber s with
    | some (v, rest) => some (.scalar v, rest)
    | none => none

/-! ### Lengths -/

theorem length_dropWhile_le (p : Char → Bool) (s : List Char) :
    (s.dropWhile p).length ≤ s.length := by
  induction s with
  | nil => simp
  | cons c rest ih =>
    rw [List.dropWhile_cons]
    split
    · exact Nat.le_succ_of_le ih
    · exact Nat.le_refl _

theorem length_scanDigits {s digits rest : List Char} (h : scanDigits s = (digits, rest)) :
    digits.length + rest.length = s.length := by
  simp only [scanDigits, Prod.mk.injEq] at h
  obtain ⟨rfl, rfl⟩ := h
  rw [← List.length_append, List.takeWhile_append_dropWhile]

theorem length_scanString {s : List Char} :
    ∀ {read pieces : List Piece} {rest : List Char},
      scanString read s = some (pieces, rest) → rest.length < s.length := by
  intro read
  fun_induction scanString read s with
  | case1 => simp +contextual
  | case2 read a b c d rest n hn ih =>
    intro pieces rest' h
    have := ih h
    simp only [List.length_cons]
    omega
  | case3 => simp
  | case4 read e rest hne c hc ih =>
    intro pieces rest' h
    have := ih h
    simp only [List.length_cons]
    omega
  | case5 => simp
  | case6 => simp
  | case7 read c rest h1 h2 h3 h4 ih =>
    intro pieces rest' h
    have := ih h
    simp only [List.length_cons]
    omega
  | case8 => simp

theorem length_scanWhole {s whole rest : List Char} (h : scanWhole s = some (whole, rest)) :
    rest.length < s.length := by
  unfold scanWhole at h
  split at h
  · simp only [Option.some.injEq, Prod.mk.injEq] at h
    obtain ⟨_, rfl⟩ := h
    simp
  · split at h
    · simp at h
    · next found hne =>
      simp only [Option.some.injEq] at h
      have hlen := length_scanDigits h
      have : whole ≠ [] := fun he => hne rest (by rw [h, he])
      have := List.length_pos_iff.mpr this
      omega

theorem length_scanFraction {s rest : List Char} {fraction : Option (List Char)}
    (h : scanFraction s = some (fraction, rest)) : rest.length ≤ s.length := by
  unfold scanFraction at h
  split at h
  · split at h
    · simp at h
    · next digits after _ hd =>
      have hlen := length_scanDigits hd
      simp only [Option.some.injEq, Prod.mk.injEq] at h
      obtain ⟨_, rfl⟩ := h
      simp only [List.length_cons]
      omega
  · simp only [Option.some.injEq, Prod.mk.injEq] at h
    obtain ⟨_, rfl⟩ := h
    exact Nat.le_refl _

theorem length_scanSign (s : List Char) : (scanSign s).2.length ≤ s.length := by
  unfold scanSign
  split <;> simp

theorem length_scanExponent {s rest : List Char} {exponent : Option Int}
    (h : scanExponent s = some (exponent, rest)) : rest.length ≤ s.length := by
  unfold scanExponent at h
  split at h
  · next c tail =>
    split at h
    · split at h
      · simp at h
      · next digits after _ hd =>
        have hlen := length_scanDigits hd
        have hsign := length_scanSign tail
        simp only [Option.some.injEq, Prod.mk.injEq] at h
        obtain ⟨_, rfl⟩ := h
        simp only [List.length_cons]
        omega
    · simp only [Option.some.injEq, Prod.mk.injEq] at h
      obtain ⟨_, rfl⟩ := h
      exact Nat.le_refl _
  · simp only [Option.some.injEq, Prod.mk.injEq] at h
    obtain ⟨_, rfl⟩ := h
    exact Nat.le_refl _

theorem length_scanMagnitude {negative : Bool} {s rest : List Char} {v : Json}
    (h : scanMagnitude negative s = some (v, rest)) : rest.length < s.length := by
  simp only [scanMagnitude, Option.bind_eq_bind, Option.bind_eq_some_iff, Option.pure_def,
    Option.some.injEq, Prod.mk.injEq, Prod.exists] at h
  obtain ⟨whole, s₁, h₁, fraction, s₂, h₂, exponent, s₃, h₃, _, rfl⟩ := h
  have := length_scanWhole h₁
  have := length_scanFraction h₂
  have := length_scanExponent h₃
  omega

theorem length_scanNumber {s rest : List Char} {v : Json} (h : scanNumber s = some (v, rest)) :
    rest.length < s.length := by
  unfold scanNumber at h
  split at h
  · have := length_scanMagnitude h
    simp only [List.length_cons]
    omega
  · exact length_scanMagnitude h

/-- A token takes at least one character. -/
theorem length_of_next? {s rest : List Char} {t : Token} (h : next? s = some (t, rest)) :
    rest.length < s.length := by
  unfold next? at h
  split at h
  all_goals try
    simp only [Option.some.injEq, Prod.mk.injEq] at h
    obtain ⟨_, rfl⟩ := h
    simp only [List.length_cons]
    omega
  · split at h
    · next hs =>
      have := length_scanString hs
      simp only [Option.some.injEq, Prod.mk.injEq] at h
      obtain ⟨_, rfl⟩ := h
      simp only [List.length_cons]
      omega
    · simp at h
  · split at h
    · next hs =>
      have := length_scanNumber hs
      simp only [Option.some.injEq, Prod.mk.injEq] at h
      obtain ⟨_, rfl⟩ := h
      exact this
    · simp at h

end SymbolSearch.Json
