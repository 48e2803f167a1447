import SymbolSearch.Proofs.Json.Scan
import SymbolSearch.Proofs.Text.Pieces
import SymbolSearch.Proofs.Toml.Quoted
import SymbolSearch.Toml.Reader

/-!
# Keys and values in a line

What the printer writes for a key or a value is read back at its place in a line. Keys have to be
such as need no quotes, and numbers have to be within the range of the format.

## Main definitions

* `Toml.isBareKey` — keys that need no quotes
* `Toml.Scalar.value` — the value that was written
* `Toml.Scalar.InRange` — numbers that the format has

## Main results

* `Toml.scanKey_join` — keys with dots between them
* `Toml.scanValue_render` — values at the end of a line
-/

namespace SymbolSearch.Toml

variable {s t rest : List Char} {key : String} {v : Scalar}

/-! ### Keys -/

/-- Whether a key needs no quotes. -/
def isBareKey (key : String) : Bool := !key.toList.isEmpty && key.toList.all isBareKeyChar

theorem exists_toList_eq_cons_of_isBareKey (h : isBareKey key = true) :
    ∃ c u, key.toList = c :: u ∧ isBareKeyChar c = true := by
  simp only [isBareKey, Bool.and_eq_true, Bool.not_eq_true', List.isEmpty_eq_false_iff,
    List.all_eq_true] at h
  obtain ⟨c, u, heq⟩ := List.exists_cons_of_ne_nil h.1
  exact ⟨c, u, heq, h.2 c (heq ▸ List.mem_cons_self)⟩

/-- The characters of keys have no other part in a document. -/
theorem isBareKeyChar_ne {c d : Char} (hc : isBareKeyChar c = true)
    (hd : isBareKeyChar d = false) : c ≠ d := by
  rintro rfl
  exact Bool.false_ne_true (hd.symm.trans hc)

theorem isSpace_of_isBareKeyChar {c : Char} (h : isBareKeyChar c = true) : isSpace c = false := by
  have hspace : c ≠ ' ' := isBareKeyChar_ne h rfl
  have htab : c ≠ '\t' := isBareKeyChar_ne h rfl
  simp [isSpace, hspace, htab]

theorem skipSpace_key (h : isBareKey key = true) :
    skipSpace (key.toList ++ s) = key.toList ++ s := by
  obtain ⟨c, u, heq, hc⟩ := exists_toList_eq_cons_of_isBareKey h
  rw [heq]
  exact List.dropWhile_cons_of_neg (by simp [isSpace_of_isBareKeyChar hc])

theorem scanSimpleKey_key (h : isBareKey key = true)
    (hrest : ∀ c ∈ rest.head?, isBareKeyChar c = false) :
    scanSimpleKey (key.toList ++ rest) = some (key, rest) := by
  have hall : ∀ c ∈ key.toList, isBareKeyChar c = true := by
    simp only [isBareKey, Bool.and_eq_true, List.all_eq_true] at h
    exact h.2
  have hscan := Text.takeWhile_dropWhile_append hall hrest
  obtain ⟨c, u, heq, hc⟩ := exists_toList_eq_cons_of_isBareKey h
  have hkey : String.ofList (c :: u) = key := by rw [← heq, String.ofList_toList]
  have hquote : c ≠ '\x22' := isBareKeyChar_ne hc rfl
  have hapostrophe : c ≠ '\x27' := isBareKeyChar_ne hc rfl
  rw [heq, List.cons_append] at hscan
  rw [heq, List.cons_append]
  simp only [scanSimpleKey, hscan, List.head?_cons]
  split
  · next hhead => exact absurd (Option.some.inj hhead) hquote
  · next hhead => exact absurd (Option.some.inj hhead) hapostrophe
  · rw [List.isEmpty_cons, if_neg Bool.false_ne_true, hkey]

/-- A dotted key is read part by part. -/
theorem scanKey_join (keys : List String) (last : String) {left : Nat} (hleft : keys.length < left)
    (hkeys : ∀ key ∈ keys ++ [last], isBareKey key = true)
    (hrest : ∀ c ∈ rest.head?, isBareKeyChar c = false)
    (hdot : ∀ c ∈ (skipSpace rest).head?, c ≠ '.') :
    scanKey left (Text.join ['.'] ((keys ++ [last]).map String.toList) ++ rest) =
      some ((keys, last), skipSpace rest) := by
  induction keys generalizing left with
  | nil =>
    obtain ⟨left, rfl⟩ := Nat.exists_eq_succ_of_ne_zero (Nat.ne_of_gt hleft)
    have hlast := hkeys last List.mem_cons_self
    rw [List.nil_append, List.map_singleton, Text.join_singleton, scanKey, skipSpace_key hlast,
      scanSimpleKey_key hlast hrest]
    simp only [Option.bind_eq_bind, Option.bind_some]
    split
    · next hhead =>
      rw [hhead] at hdot
      exact absurd rfl (hdot '.' rfl)
    · rfl
  | cons key keys ih =>
    obtain ⟨left, rfl⟩ := Nat.exists_eq_succ_of_ne_zero (Nat.ne_of_gt (Nat.zero_lt_of_lt hleft))
    rw [List.cons_append, List.forall_mem_cons] at hkeys
    have hmore : (keys ++ [last]).map String.toList ≠ [] := by simp
    have hrec := ih (Nat.lt_of_succ_lt_succ hleft) hkeys.2
    have hskip : ∀ u, skipSpace ('.' :: u) = '.' :: u := fun _ => rfl
    rw [List.cons_append, List.map_cons, Text.join_cons hmore, List.append_assoc,
      List.append_assoc, List.singleton_append, scanKey, skipSpace_key hkeys.1,
      scanSimpleKey_key hkeys.1 (by simp [isBareKeyChar])]
    simp only [Option.bind_eq_bind, Option.bind_some, hskip, hrec]
    rfl

/-! ### Values -/

/-- The value that was written. -/
def Scalar.value : Scalar → Value
  | .text s => .text s
  | .nat n => .int n
  | .bool b => .bool b
  | .noItems => .list []

/-- A number is within the range of the format. -/
def Scalar.InRange : Scalar → Prop
  | .nat n => n < 0x8000000000000000
  | _ => True

theorem isDate_eq_false (h : '-' ∉ s) : isDate s = false := by
  unfold isDate
  split
  · simp at h
  · rfl

theorem isTime_eq_false (h : ':' ∉ s) : isTime s = false := by
  unfold isTime afterTime?
  split
  · simp at h
  · rfl

theorem isDateTime_eq_false (h : '-' ∉ s) : isDateTime s = false := by
  rw [isDateTime, isDate_eq_false fun hmem => h (List.mem_of_mem_take hmem), Bool.false_and]

theorem not_mem_toDigits {c : Char} (n : Nat) (h : c.isDigit = false) : c ∉ Nat.toDigits 10 n :=
  fun hc => Bool.false_ne_true (h.symm.trans (Json.isDigit_of_mem_toDigits c hc))

theorem wholeDigits?_toDigits (n : Nat) :
    wholeDigits? (Nat.toDigits 10 n) = some (Nat.toDigits 10 n) := by
  have hdigits : digits? Char.isDigit (Nat.toDigits 10 n) = some (Nat.toDigits 10 n) := by
    rw [digits?, Text.splitOn_of_not_mem (not_mem_toDigits n rfl)]
    have hall : (Nat.toDigits 10 n).all Char.isDigit = true :=
      List.all_eq_true.mpr Json.isDigit_of_mem_toDigits
    simp [hall]
  rw [wholeDigits?, hdigits]
  split
  · next d u hzero =>
    -- Only the number zero starts with a zero, and it has no further digit.
    by_cases hn : n = 0
    · subst hn
      cases hzero
    · have hhead := Json.head?_toDigits_ne_zero hn
      rw [Option.some.inj hzero] at hhead
      exact absurd rfl hhead
  · rfl

theorem unsign_toDigits (n : Nat) : unsign (Nat.toDigits 10 n) = (false, Nat.toDigits 10 n) := by
  obtain ⟨c, u, heq, hc⟩ := Json.exists_toDigits_eq_cons n
  rw [heq, unsign]
  · rintro _ ⟨⟩
    cases hc
  · rintro _ ⟨⟩
    cases hc

theorem decimalInteger?_toDigits {n : Nat} (h : n < 0x8000000000000000) :
    decimalInteger? (Nat.toDigits 10 n) = some (n : Int) := by
  have hrange : -0x8000000000000000 ≤ (n : Int) ∧ (n : Int) < 0x8000000000000000 := by omega
  rw [decimalInteger?, unsign_toDigits]
  change (wholeDigits? (Nat.toDigits 10 n)).bind _ = _
  rw [wholeDigits?_toDigits, Option.bind_some]
  simp only [Json.digitsValue_toDigits, Bool.false_eq_true, if_false]
  rw [if_pos hrange]

theorem integer?_toDigits {n : Nat} (h : n < 0x8000000000000000) :
    integer? (Nat.toDigits 10 n) = some (n : Int) := by
  rw [integer?, decimalInteger?_toDigits h]
  -- The marks of other bases are no digits.
  all_goals
    intro u heq
    have hletter := Json.isDigit_of_mem_toDigits (n := n)
    rw [heq] at hletter
    simp at hletter

theorem wordValue?_toDigits {n : Nat} (h : n < 0x8000000000000000) :
    wordValue? (Nat.toDigits 10 n) = some (.int n) := by
  obtain ⟨c, u, heq, hc⟩ := Json.exists_toDigits_eq_cons n
  have htrue : Nat.toDigits 10 n ≠ ['t', 'r', 'u', 'e'] := by
    rw [heq]
    rintro ⟨⟩
    cases hc
  have hfalse : Nat.toDigits 10 n ≠ ['f', 'a', 'l', 's', 'e'] := by
    rw [heq]
    rintro ⟨⟩
    cases hc
  rw [wordValue?, if_neg htrue, if_neg hfalse, isDate_eq_false (not_mem_toDigits n rfl),
    isTime_eq_false (not_mem_toDigits n rfl), isDateTime_eq_false (not_mem_toDigits n rfl),
    integer?_toDigits h]
  rfl

/-- A word at the end of a line. -/
theorem scanScalar_word {word : List Char} {value : Value}
    (hword : ∀ c ∈ word, isWordChar c = true) (hvalue : wordValue? word = some value)
    (rest : List Char) : scanScalar (word ++ '\n' :: rest) = some (value, '\n' :: rest) := by
  have hscan : (word ++ '\n' :: rest).takeWhile isWordChar = word ∧
      (word ++ '\n' :: rest).dropWhile isWordChar = '\n' :: rest :=
    Text.takeWhile_dropWhile_append hword (by simp [isWordChar])
  simp only [scanScalar, hscan, hvalue, Option.bind_eq_bind, Option.bind_some]
  rfl

theorem scanValue_quoted {c : Char} {u : List Char} (depth : Nat) (hc : c = '\x22' ∨ c = '\x27')
    (h : scanString (c :: u) = some (s, rest)) :
    scanValue depth (c :: u) = some (.text (String.ofList s), rest) := by
  rw [scanValue.eq_def]
  rcases hc with rfl | rfl
  · simp only [List.head?_cons, h]
    rfl
  · simp only [List.head?_cons, h]
    rfl

theorem exists_quote_eq_cons (s : List Char) :
    ∃ c u, Toml.quote s = c :: u ∧ (c = '\x22' ∨ c = '\x27') := by
  unfold Toml.quote
  cases Form.of s with
  | basic => exact ⟨_, _, rfl, Or.inl rfl⟩
  | literal => exact ⟨_, _, rfl, Or.inr rfl⟩
  | basicLines => exact ⟨_, _, rfl, Or.inl rfl⟩
  | literalLines => exact ⟨_, _, rfl, Or.inr rfl⟩

/-- Words are no strings, arrays or tables. -/
theorem scanValue_scalar {c : Char} {u : List Char} (depth : Nat)
    (h : isWordChar c = true) : scanValue depth (c :: u) = scanScalar (c :: u) := by
  have hne : ∀ d, isWordChar d = false → c ≠ d := by
    rintro d hd rfl
    exact Bool.false_ne_true (hd.symm.trans h)
  have hquote : c ≠ '\x22' := hne _ rfl
  have hapostrophe : c ≠ '\x27' := hne _ rfl
  have hbracket : c ≠ '[' := hne _ rfl
  have hbrace : c ≠ '\x7b' := hne _ rfl
  rw [scanValue.eq_def]
  simp only [List.head?_cons]
  split <;> simp_all

/-- A value is read back at the end of its line. -/
theorem scanValue_render (depth : Nat) (h : v.InRange) :
    scanValue (depth + 1) (v.render ++ '\n' :: rest) = some (v.value, '\n' :: rest) := by
  cases v with
  | text s =>
    have hscan : scanString (Toml.quote s.toList ++ '\n' :: rest) =
        some (s.toList, '\n' :: rest) := scanString_quote (by simp) s.toList
    obtain ⟨c, u, heq, hc⟩ := exists_quote_eq_cons s.toList
    rw [Scalar.render, heq, List.cons_append]
    rw [heq, List.cons_append] at hscan
    rw [scanValue_quoted _ hc hscan, String.ofList_toList]
    rfl
  | nat n =>
    have hword : ∀ c ∈ Nat.toDigits 10 n, isWordChar c = true := by
      intro c hc
      have hdigit := Json.isDigit_of_mem_toDigits c hc
      simp [isWordChar, Char.isAlphanum, hdigit]
    have hscan := scanScalar_word hword (wordValue?_toDigits h) rest
    obtain ⟨c, u, heq, -⟩ := Json.exists_toDigits_eq_cons n
    rw [Scalar.render]
    rw [heq] at hscan hword ⊢
    rw [List.cons_append, scanValue_scalar _ (hword c List.mem_cons_self)]
    exact hscan
  | bool b =>
    cases b with
    | true => rfl
    | false => rfl
  | noItems => rfl

theorem skipSpace_render (v : Scalar) (rest : List Char) :
    skipSpace (' ' :: (v.render ++ rest)) = v.render ++ rest := by
  have hhead : ∃ c u, v.render = c :: u ∧ isSpace c = false := by
    cases v with
    | text s =>
      obtain ⟨c, u, heq, rfl | rfl⟩ := exists_quote_eq_cons s.toList
      · exact ⟨_, u, heq, rfl⟩
      · exact ⟨_, u, heq, rfl⟩
    | nat n =>
      obtain ⟨c, u, heq, hc⟩ := Json.exists_toDigits_eq_cons n
      have hbare : isBareKeyChar c = true := by simp [isBareKeyChar, Char.isAlphanum, hc]
      exact ⟨c, u, heq, isSpace_of_isBareKeyChar hbare⟩
    | bool b =>
      cases b with
      | true => exact ⟨_, _, rfl, rfl⟩
      | false => exact ⟨_, _, rfl, rfl⟩
    | noItems => exact ⟨_, _, rfl, rfl⟩
  obtain ⟨c, u, heq, hc⟩ := hhead
  rw [heq, skipSpace, List.dropWhile_cons_of_pos rfl, List.cons_append,
    List.dropWhile_cons_of_neg (by simp [hc])]

end SymbolSearch.Toml
