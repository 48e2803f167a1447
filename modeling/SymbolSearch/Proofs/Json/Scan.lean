import SymbolSearch.Json.Printer
import SymbolSearch.Json.Token

/-!
# Written strings and numbers are read as one token

What the printer writes for a string or a number is the first token of every text that starts with
it. A number needs a text behind it that does not carry it on.

## Main definitions

* `Json.pieceOf` — the piece that a written character is read as
* `Json.EndsNumber` — a text that does not carry a number on

## Main results

* `Json.next?_quote` — strings
* `Json.next?_intText`, `Json.next?_decimalText` — numbers
-/

namespace SymbolSearch.Json

/-! ### Strings -/

/-- The characters that are written as a backslash and a letter or mark. -/
def lettered : List Char := ['\x22', '\\', '\n', '\r', '\t', '\x08', '\x0c']

/-- The piece of a string that a written character is read as. -/
def pieceOf (c : Char) : Piece :=
  if c ∉ lettered ∧ c.toNat < 0x20 then .code c.toNat else .char c

theorem hexCode?_control : ∀ n < 32,
    hexCode? '0' '0' (Text.hexDigit 'a' (n / 16)) (Text.hexDigit 'a' (n % 16)) = some n := by
  decide

/-- Reading goes on behind a written character with its piece. -/
theorem scanString_escapeChar (c : Char) (read : List Piece) (rest : List Char) :
    scanString read (escapeChar c ++ rest) = scanString (pieceOf c :: read) rest := by
  by_cases hletter : c ∈ lettered
  · simp only [lettered, List.mem_cons, List.not_mem_nil, or_false] at hletter
    rcases hletter with rfl | rfl | rfl | rfl | rfl | rfl | rfl <;> rfl
  · have hne := hletter
    simp only [lettered, List.mem_cons, List.not_mem_nil, or_false, not_or] at hne
    obtain ⟨hquote, hslash, hn, hr, ht, hb, hf⟩ := hne
    unfold escapeChar pieceOf
    rw [if_neg hquote, if_neg hslash, if_neg hn, if_neg hr, if_neg ht, if_neg hb, if_neg hf]
    by_cases hcontrol : c.toNat < 0x20
    · rw [if_pos hcontrol, if_pos ⟨hletter, hcontrol⟩]
      simp only [List.cons_append, List.nil_append, scanString, hexCode?_control c.toNat hcontrol]
    · rw [if_neg hcontrol, if_neg (fun h => hcontrol h.2), List.singleton_append, scanString]
      · simp [hcontrol, hslash]
      -- The earlier cases of the scanner start with a quote or a backslash.
      all_goals simp_all

theorem scanString_flatMap_escapeChar (s : List Char) (read : List Piece) (rest : List Char) :
    scanString read (s.flatMap escapeChar ++ '\x22' :: rest) =
      some (read.reverse ++ s.map pieceOf, rest) := by
  induction s generalizing read with
  | nil => simp [scanString]
  | cons c s ih =>
    rw [List.flatMap_cons, List.append_assoc, scanString_escapeChar, ih]
    simp

theorem assemble_code {n : Nat} (hhigh : isHigh n = false) (hlow : isLow n = false)
    (taken : List Char) (pieces : List Piece) :
    assemble taken (.code n :: pieces) = assemble (Char.ofNat n :: taken) pieces := by
  cases pieces with
  | nil => simp [assemble, hhigh, hlow]
  | cons piece pieces => cases piece <;> simp [assemble, hhigh, hlow]

theorem assemble_pieceOf (c : Char) (taken : List Char) (pieces : List Piece) :
    assemble taken (pieceOf c :: pieces) = assemble (c :: taken) pieces := by
  unfold pieceOf
  split
  · next h =>
    -- Control characters are no halves of a surrogate pair.
    have hhigh : isHigh c.toNat = false := by simp only [isHigh]; grind
    have hlow : isLow c.toNat = false := by simp only [isLow]; grind
    rw [assemble_code hhigh hlow, Char.ofNat_toNat]
  · rw [assemble]

theorem assemble_map_pieceOf (s taken : List Char) :
    assemble taken (s.map pieceOf) = some (String.ofList (taken.reverse ++ s)) := by
  induction s generalizing taken with
  | nil => simp [assemble]
  | cons c s ih =>
    rw [List.map_cons, assemble_pieceOf, ih]
    simp

/-- A written string is read back, also one that has no text. -/
theorem next?_quote (s : Literal) (rest : List Char) :
    next? (quote s ++ rest) = some (.string s, rest) := by
  cases s with
  | none => rfl
  | some s =>
    have hscan := scanString_flatMap_escapeChar s.toList [] rest
    have hassemble := assemble_map_pieceOf s.toList []
    simp only [List.reverse_nil, List.nil_append, String.ofList_toList] at hscan hassemble
    simp only [quote, List.cons_append, List.append_assoc, List.nil_append, next?, hscan, hassemble]

/-! ### Numbers -/

/-- Whether a character behind a number belongs to it. -/
def carriesOn (c : Char) : Bool := c.isDigit || c == '.' || c == 'e' || c == 'E'

/-- A text does not carry on a number in front of it. -/
def EndsNumber (s : List Char) : Prop := ∀ c ∈ s.head?, carriesOn c = false

variable {n : Nat} {s rest : List Char}

theorem carriesOn_eq_false_iff {c : Char} :
    carriesOn c = false ↔ c.isDigit = false ∧ c ≠ '.' ∧ c ≠ 'e' ∧ c ≠ 'E' := by
  simp [carriesOn, and_assoc]

theorem EndsNumber.not_isDigit (h : EndsNumber rest) : ∀ c ∈ rest.head?, c.isDigit = false :=
  fun c hc => (carriesOn_eq_false_iff.mp (h c hc)).1

theorem scanDigits_append (hs : ∀ c ∈ s, c.isDigit = true)
    (hrest : ∀ c ∈ rest.head?, c.isDigit = false) : scanDigits (s ++ rest) = (s, rest) := by
  rw [scanDigits, List.takeWhile_append_of_pos hs, List.dropWhile_append_of_pos hs]
  cases rest with
  | nil => simp
  | cons c rest =>
    have hc := hrest c rfl
    simp [hc]

theorem isDigit_of_mem_toDigits : ∀ c ∈ Nat.toDigits 10 n, c.isDigit = true :=
  fun _ hc => Nat.isDigit_of_mem_toDigits (by decide) (by decide) hc

/-- Only the number zero is written with a leading zero. -/
theorem head?_toDigits_ne_zero (h : n ≠ 0) : (Nat.toDigits 10 n).head? ≠ some '0' := by
  induction n using Nat.strongRecOn with
  | ind n ih =>
    -- The first digit is that of the number without its last digit, until one digit is left.
    by_cases hn : n < 10
    · have hsmall : ∀ n < 10, n ≠ 0 → Nat.digitChar n ≠ '0' := by decide
      rw [Nat.toDigits_of_lt_base hn]
      simpa using hsmall n hn h
    · have hhead := ih (n / 10) (by omega) (by omega)
      obtain ⟨c, digits, hdigits⟩ := List.exists_cons_of_ne_nil (Nat.toDigits_ne_nil (n := n / 10))
      rw [hdigits] at hhead
      rw [Nat.toDigits_of_base_le (by decide) (Nat.le_of_not_lt hn), hdigits]
      exact hhead

theorem scanWhole_toDigits (n : Nat) (hrest : ∀ c ∈ rest.head?, c.isDigit = false) :
    scanWhole (Nat.toDigits 10 n ++ rest) = some (Nat.toDigits 10 n, rest) := by
  by_cases hn : n = 0
  · subst hn
    rfl
  · have hscan : scanDigits (Nat.toDigits 10 n ++ rest) = (Nat.toDigits 10 n, rest) :=
      scanDigits_append isDigit_of_mem_toDigits hrest
    have hhead := head?_toDigits_ne_zero hn
    obtain ⟨c, digits, hdigits⟩ := List.exists_cons_of_ne_nil (Nat.toDigits_ne_nil (n := n))
    rw [hdigits] at hscan hhead ⊢
    rw [scanWhole, hscan]
    · exact fun _ h => hhead (congrArg some (List.cons.inj h).1)

theorem scanFraction_of_ends (h : ∀ c ∈ rest.head?, c ≠ '.') :
    scanFraction rest = some (none, rest) := by
  cases rest with
  | nil => rfl
  | cons c rest =>
    rw [scanFraction]
    exact fun _ hc => h c rfl (List.cons.inj hc).1

theorem scanExponent_of_ends (h : ∀ c ∈ rest.head?, c ≠ 'e' ∧ c ≠ 'E') :
    scanExponent rest = some (none, rest) := by
  cases rest with
  | nil => rfl
  | cons c rest =>
    obtain ⟨he, hE⟩ := h c rfl
    simp [scanExponent, he, hE]

theorem digitsValue_toDigits (n : Nat) : digitsValue (Nat.toDigits 10 n) = n :=
  Nat.ofDigitChars_ten_toDigits

theorem scanMagnitude_toDigits (negative : Bool) (n : Nat) (h : EndsNumber rest) :
    scanMagnitude negative (Nat.toDigits 10 n ++ rest) =
      some (makeNumber negative (Nat.toDigits 10 n) none none, rest) := by
  have hfraction := scanFraction_of_ends fun c hc => (carriesOn_eq_false_iff.mp (h c hc)).2.1
  have hexponent := scanExponent_of_ends fun c hc => (carriesOn_eq_false_iff.mp (h c hc)).2.2
  simp only [scanMagnitude, scanWhole_toDigits n h.not_isDigit, Option.bind_eq_bind,
    Option.bind_some, hfraction, hexponent]
  rfl

/-- The digits of a number start with one. -/
theorem exists_toDigits_eq_cons (n : Nat) :
    ∃ c digits, Nat.toDigits 10 n = c :: digits ∧ c.isDigit = true := by
  obtain ⟨c, digits, hdigits⟩ := List.exists_cons_of_ne_nil (Nat.toDigits_ne_nil (n := n) (b := 10))
  exact ⟨c, digits, hdigits, isDigit_of_mem_toDigits c (hdigits ▸ List.mem_cons_self)⟩

theorem scanSign_intText (e : Int) (rest : List Char) :
    scanSign (intText e ++ rest) = (decide (e < 0), Nat.toDigits 10 e.natAbs ++ rest) := by
  unfold intText
  by_cases he : e < 0
  · rw [if_pos he, decide_eq_true he]
    rfl
  · obtain ⟨c, digits, hdigits, hc⟩ := exists_toDigits_eq_cons e.natAbs
    rw [if_neg he, decide_eq_false he, hdigits, List.cons_append, scanSign]
    · rintro _ ⟨rfl, -⟩
      cases hc
    · rintro _ ⟨rfl, -⟩
      cases hc

theorem scanExponent_intText (e : Int) (h : EndsNumber rest) :
    scanExponent ('e' :: (intText e ++ rest)) = some (some e, rest) := by
  have hscan : scanDigits (Nat.toDigits 10 e.natAbs ++ rest) = (Nat.toDigits 10 e.natAbs, rest) :=
    scanDigits_append isDigit_of_mem_toDigits h.not_isDigit
  obtain ⟨c, digits, hdigits, -⟩ := exists_toDigits_eq_cons e.natAbs
  have hvalue : digitsValue (c :: digits) = e.natAbs := hdigits ▸ digitsValue_toDigits e.natAbs
  have hsigned : (if decide (e < 0) = true then -(e.natAbs : Int) else e.natAbs) = e := by
    split <;> grind
  rw [hdigits] at hscan
  simp only [scanExponent, true_or, if_true, scanSign_intText, hdigits, hscan, hvalue, hsigned]

theorem scanMagnitude_exponent (negative : Bool) (n : Nat) (e : Int) (h : EndsNumber rest) :
    scanMagnitude negative (Nat.toDigits 10 n ++ 'e' :: (intText e ++ rest)) =
      some (.real ⟨negative, n, e⟩, rest) := by
  have hwhole : scanWhole (Nat.toDigits 10 n ++ 'e' :: (intText e ++ rest)) =
      some (Nat.toDigits 10 n, 'e' :: (intText e ++ rest)) :=
    scanWhole_toDigits n (by simp)
  have hfraction : scanFraction ('e' :: (intText e ++ rest)) =
      some (none, 'e' :: (intText e ++ rest)) := rfl
  simp only [scanMagnitude, hwhole, Option.bind_eq_bind, Option.bind_some, hfraction,
    scanExponent_intText e h]
  simp [makeNumber, digitsValue_toDigits]

/-- Digits without a sign are a number. -/
theorem scanNumber_toDigits (n : Nat) (rest : List Char) :
    scanNumber (Nat.toDigits 10 n ++ rest) = scanMagnitude false (Nat.toDigits 10 n ++ rest) := by
  obtain ⟨c, digits, hdigits, hc⟩ := exists_toDigits_eq_cons n
  rw [hdigits, List.cons_append, scanNumber]
  rintro _ ⟨rfl, -⟩
  cases hc

theorem scanNumber_intText (n : Int) (h : EndsNumber rest) :
    scanNumber (intText n ++ rest) = some (.int n, rest) := by
  unfold intText
  split
  · next hn =>
    have hne : n.natAbs ≠ 0 := by omega
    have hvalue : -(n.natAbs : Int) = n := by omega
    rw [List.cons_append, scanNumber, scanMagnitude_toDigits true _ h]
    simp only [makeNumber, digitsValue_toDigits, if_true, if_neg hne, hvalue]
  · next hn =>
    have hvalue : (n.natAbs : Int) = n := by omega
    rw [scanNumber_toDigits, scanMagnitude_toDigits false _ h]
    simp only [makeNumber, digitsValue_toDigits, Bool.false_eq_true, if_false, hvalue]

theorem scanNumber_decimalText (d : Decimal) (h : EndsNumber rest) :
    scanNumber (decimalText d ++ rest) = some (.real d, rest) := by
  obtain ⟨negative, mantissa, exponent⟩ := d
  have hscan := scanMagnitude_exponent negative mantissa exponent h
  cases negative with
  | true => simpa [decimalText, scanNumber] using hscan
  | false =>
    rw [← scanNumber_toDigits] at hscan
    simpa [decimalText] using hscan

/-- A number starts with a sign or a digit, so with none of the given characters. -/
theorem not_mem_of_number {c : Char} {others : List Char}
    (hothers : others.any (fun d => d == '-' || d.isDigit) = false)
    (hc : c = '-' ∨ c.isDigit = true) : c ∉ others := by
  intro hmem
  have := List.any_eq_false.mp hothers c hmem
  simp only [Bool.or_eq_true, beq_iff_eq] at this
  exact this hc

/-- A text that starts with a digit or a sign and with a number has that number as its token. -/
theorem next?_of_scanNumber {c : Char} {v : Json} (hc : c = '-' ∨ c.isDigit = true)
    (h : scanNumber (c :: s) = some (v, rest)) : next? (c :: s) = some (.scalar v, rest) := by
  have hother : c ∉ ['\x7b', '\x7d', '[', ']', ',', ':', '\x22', 'n', 't', 'f'] :=
    not_mem_of_number (by decide) hc
  rw [next?, h]
  -- No other token starts with this character.
  all_goals
    rintro _ ⟨⟩
    simp at hother

theorem exists_intText_eq_cons (n : Int) :
    ∃ c s, intText n = c :: s ∧ (c = '-' ∨ c.isDigit = true) := by
  obtain ⟨c, digits, hdigits, hc⟩ := exists_toDigits_eq_cons n.natAbs
  unfold intText
  split
  · exact ⟨_, _, rfl, .inl rfl⟩
  · exact ⟨c, digits, hdigits, .inr hc⟩

theorem exists_decimalText_eq_cons (d : Decimal) :
    ∃ c s, decimalText d = c :: s ∧ (c = '-' ∨ c.isDigit = true) := by
  obtain ⟨c, digits, hdigits, hc⟩ := exists_toDigits_eq_cons d.mantissa
  unfold decimalText
  split
  · exact ⟨_, _, rfl, .inl rfl⟩
  · exact ⟨c, digits ++ (['e'] ++ intText d.exponent), by simp [hdigits], .inr hc⟩

/-- A written integer is read back. -/
theorem next?_intText (n : Int) (h : EndsNumber rest) :
    next? (intText n ++ rest) = some (.scalar (.int n), rest) := by
  have hscan := scanNumber_intText n h
  obtain ⟨c, s, heq, hc⟩ := exists_intText_eq_cons n
  rw [heq] at hscan ⊢
  exact next?_of_scanNumber hc hscan

/-- A number written with an exponent is read back. -/
theorem next?_decimalText (d : Decimal) (h : EndsNumber rest) :
    next? (decimalText d ++ rest) = some (.scalar (.real d), rest) := by
  have hscan := scanNumber_decimalText d h
  obtain ⟨c, s, heq, hc⟩ := exists_decimalText_eq_cons d
  rw [heq] at hscan ⊢
  exact next?_of_scanNumber hc hscan

end SymbolSearch.Json
