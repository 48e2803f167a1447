import Mathlib.Logic.Basic
import Mathlib.Tactic.SplitIfs
import SymbolSearch.Proofs.Text.Pieces
import SymbolSearch.Toml.Quoted
import SymbolSearch.Toml.Writer

/-!
# Strings survive quoting

A string is written in one of four forms, and is read back from each of them. Between quotes every
character is read from what was written for it, so that only runs of quotes before the three that
close a string need care: two of them may stand as they are, also right before the end. Between
apostrophes characters stand as they are, which is why these forms are taken only for strings that
cannot close them.

## Main results

* `Toml.closing?_replicate` — where a run of quotes ends a string
* `Toml.scanBasic_escape_line`, `Toml.scanBasic_escape_lines` — strings between quotes
* `Toml.scanLiteral_line`, `Toml.scanLiteral_lines` — strings between apostrophes
* `Toml.scanString_quote` — a string is read back from the form it is written in
-/

namespace SymbolSearch.Toml

variable {c : Char} {s taken rest : List Char} {multi : Bool}

/-! ### Characters between quotes -/

theorem hexValue?_hexDigit : ∀ n < 16, Text.hexValue? (Text.hexDigit 'A' n) = some n := by decide

theorem charOfCode?_toNat (c : Char) : charOfCode? c.toNat = some c := by
  have hvalid : c.toNat.isValidChar := c.valid
  rw [charOfCode?, if_pos hvalid, Char.ofNat_toNat]

theorem scanBasic_digit {left value digit : Nat} (h : Text.hexValue? c = some digit) :
    scanBasic multi (.code (left + 2) value) taken (c :: rest) =
      scanBasic multi (.code (left + 1) (16 * value + digit)) taken rest := by
  rw [scanBasic.eq_2, h]
  exact if_neg (by omega)

theorem scanBasic_last_digit {value digit : Nat} {d : Char} (h : Text.hexValue? c = some digit)
    (hd : charOfCode? (16 * value + digit) = some d) :
    scanBasic multi (.code 1 value) taken (c :: rest) =
      scanBasic multi .plain (d :: taken) rest := by
  simp only [scanBasic.eq_2, h, Nat.le_refl, if_true, hd]

/-- Four digits are read as the character they are the code of. -/
theorem scanBasic_code (h : c.toNat < 256) :
    scanBasic multi (.code 4 0) taken
        ('0' :: '0' :: Text.hexDigit 'A' (c.toNat / 16) :: Text.hexDigit 'A' (c.toNat % 16) :: rest) =
      scanBasic multi .plain (c :: taken) rest := by
  have hhigh := hexValue?_hexDigit (c.toNat / 16) (by omega)
  have hlow := hexValue?_hexDigit (c.toNat % 16) (Nat.mod_lt _ (by decide))
  have hzero : Text.hexValue? '0' = some 0 := rfl
  have hcode : 16 * (c.toNat / 16) + c.toNat % 16 = c.toNat := Nat.div_add_mod _ _
  rw [scanBasic_digit hzero, scanBasic_digit hzero, scanBasic_digit hhigh,
    scanBasic_last_digit hlow (d := c)]
  simp only [Nat.mul_zero, Nat.zero_add, hcode, charOfCode?_toNat]

theorem isPrintable_of_needsEscape (h : needsEscape c = false) (hn : c ≠ '\n') :
    isPrintable c = true := by
  simp only [needsEscape, Bool.or_eq_false_iff, Bool.and_eq_false_iff, decide_eq_false_iff_not,
    bne_eq_false_iff_eq, beq_eq_false_iff_ne] at h
  simp only [isPrintable, Bool.or_eq_true, Bool.and_eq_true, decide_eq_true_eq, beq_iff_eq,
    bne_iff_ne]
  obtain ⟨(hlow | htab) | hnewline, hdel⟩ := h
  · exact Or.inr ⟨Nat.le_of_not_lt hlow, hdel⟩
  · exact Or.inl htab
  · exact absurd hnewline hn

/-- Characters that stand as they are between quotes. -/
theorem scanBasic_plain (hquote : c ≠ '\x22') (hslash : c ≠ '\\') (hnewline : c ≠ '\n')
    (hreturn : c ≠ '\r') (hprint : isPrintable c = true) :
    scanBasic multi .plain taken (c :: rest) = scanBasic multi .plain (c :: taken) rest := by
  rw [scanBasic.eq_def]
  simp [hquote, hslash, hnewline, hreturn, hprint, startsNewline]

theorem scanBasic_newline :
    scanBasic true .plain taken ('\n' :: rest) = scanBasic true .plain ('\n' :: taken) rest := by
  rw [scanBasic.eq_def]
  rfl

/-- Reading goes on behind what is written for a character other than a quote. -/
theorem scanBasic_escapeChar (hquote : c ≠ '\x22') :
    scanBasic multi .plain taken (escapeChar multi c ++ rest) =
      scanBasic multi .plain (c :: taken) rest := by
  unfold escapeChar
  split_ifs with hslash hb ht hf hr hn hmulti hescape
  · subst hslash
    rfl
  · subst hb
    rfl
  · subst ht
    rfl
  · subst hf
    rfl
  · subst hr
    rfl
  · subst hn hmulti
    exact scanBasic_newline
  · subst hn
    obtain rfl : multi = false := Bool.eq_false_iff.mpr hmulti
    rfl
  · have hcode : c.toNat < 256 := by
      simp only [needsEscape, Bool.or_eq_true, Bool.and_eq_true, decide_eq_true_eq,
        beq_iff_eq] at hescape
      omega
    exact scanBasic_code hcode
  · have hprint := isPrintable_of_needsEscape (Bool.eq_false_iff.mpr hescape) hn
    exact scanBasic_plain hquote hslash hn hr hprint

theorem scanBasic_escaped_quote :
    scanBasic multi .plain taken ('\\' :: '\x22' :: rest) =
      scanBasic multi .plain ('\x22' :: taken) rest := rfl

/-- What is written for a character other than a quote starts with no quote and, line breaks apart,
with no line break. -/
theorem exists_escapeChar_eq_cons (multi : Bool) (hquote : c ≠ '\x22') :
    ∃ d u, escapeChar multi c = d :: u ∧ d ≠ '\x22' ∧ d ≠ '\r' ∧ (c ≠ '\n' → d ≠ '\n') := by
  unfold escapeChar
  split_ifs <;> simp_all

/-! ### Where a string over several lines ends -/

variable {quote : Char}

theorem takeWhile_replicate_append (n : Nat) (hrest : ∀ d ∈ rest.head?, d ≠ quote) :
    (List.replicate n quote ++ rest).takeWhile (· == quote) = List.replicate n quote := by
  refine (Text.takeWhile_dropWhile_append ?_ ?_).1
  · exact fun d hd => beq_iff_eq.mpr (List.eq_of_mem_replicate hd)
  · exact fun d hd => beq_eq_false_iff_ne.mpr (hrest d hd)

/-- A quote with one more behind it, or with none, is content. -/
theorem closing?_of_lt {n : Nat} (hn : n < 2) (hrest : ∀ d ∈ rest.head?, d ≠ quote) :
    closing? quote (List.replicate n quote ++ rest) = none := by
  rw [closing?, takeWhile_replicate_append n hrest, List.length_replicate]
  exact if_pos hn

/-- Of three to five quotes at the end of a string the last three close it. -/
theorem closing?_of_le {n : Nat} (hn : n ≤ 2) (hrest : ∀ d ∈ rest.head?, d ≠ quote) :
    closing? quote (List.replicate n quote ++ (quote :: quote :: rest)) =
      some (List.replicate n quote, rest) := by
  have hall : List.replicate n quote ++ (quote :: quote :: rest) =
      List.replicate (n + 2) quote ++ rest := by
    rw [← List.replicate_append_replicate, List.append_assoc]
    rfl
  have hmin : min (n + 2) 4 - 2 = n := by omega
  rw [hall, closing?, takeWhile_replicate_append _ hrest, List.length_replicate]
  simp only [hmin]
  rw [if_neg (by omega), List.drop_left' List.length_replicate]

theorem scanBasic_closing {more after : List Char} (h : closing? '\x22' rest = some (more, after)) :
    scanBasic true .plain taken ('\x22' :: rest) = some (taken.reverse ++ more, after) := by
  rw [scanBasic.eq_def]
  simp [h]

theorem scanBasic_not_closing (h : closing? '\x22' rest = none) :
    scanBasic true .plain taken ('\x22' :: rest) = scanBasic true .plain ('\x22' :: taken) rest := by
  rw [scanBasic.eq_def]
  simp [h]

/-! ### Strings between quotes -/

theorem escape_quote_of_lt {run : Nat} (h : run < 2) :
    escape true run ('\x22' :: s) = '\x22' :: escape true (run + 1) s := by
  simp [escape, h]

theorem escape_quote_of_le {run : Nat} (h : 2 ≤ run) :
    escape true run ('\x22' :: s) = '\\' :: '\x22' :: escape true 0 s := by
  simp [escape, Nat.not_lt.mpr h]

theorem escape_of_ne {run : Nat} (h : c ≠ '\x22') :
    escape multi run (c :: s) = escapeChar multi c ++ escape multi 0 s := by
  simp [escape, h]

/-- Behind two quotes the next one is written with a backslash, so that no third one follows. -/
theorem head?_escape {run : Nat} (h : 2 ≤ run ∨ c ≠ '\x22') (s rest : List Char) :
    ∀ d ∈ (escape true run (c :: s) ++ rest).head?, d ≠ '\x22' := by
  by_cases hquote : c = '\x22'
  · subst hquote
    rw [escape_quote_of_le (h.resolve_right (not_not.mpr rfl))]
    simp
  · obtain ⟨d, u, heq, hd, -⟩ := exists_escapeChar_eq_cons true hquote
    rw [escape_of_ne hquote, heq]
    simpa using hd

theorem scanBasic_escape_line (s taken rest : List Char) :
    scanBasic false .plain taken (escape false 0 s ++ '\x22' :: rest) =
      some (taken.reverse ++ s, rest) := by
  induction s generalizing taken with
  | nil =>
    rw [List.append_nil, scanBasic.eq_def]
    rfl
  | cons c s ih =>
    by_cases hquote : c = '\x22'
    · subst hquote
      have hescape : escape false 0 ('\x22' :: s) = '\\' :: '\x22' :: escape false 0 s := rfl
      rw [hescape, List.cons_append, List.cons_append, scanBasic_escaped_quote, ih]
      simp
    · rw [escape_of_ne hquote, List.append_assoc, scanBasic_escapeChar hquote, ih]
      simp

/-- A quote that stands as it is either does not end the string, or it is the first of the quotes
that the string ends in. -/
theorem closing?_escape (hrest : ∀ d ∈ rest.head?, d ≠ '\x22') {run : Nat} (hrun : run < 2)
    (s : List Char) :
    closing? '\x22' (escape true (run + 1) s ++ (triple '\x22' ++ rest)) = none ∨
      closing? '\x22' (escape true (run + 1) s ++ (triple '\x22' ++ rest)) =
        some ('\x22' :: s, rest) := by
  -- At most one more quote stands as it is, so two characters of the string decide.
  rcases s with _ | ⟨d, s⟩
  · exact Or.inr (closing?_of_le (n := 1) (by omega) hrest)
  · by_cases hd : 2 ≤ run + 1 ∨ d ≠ '\x22'
    · exact Or.inl (closing?_of_lt (n := 0) (by omega) (head?_escape hd s _))
    · obtain ⟨hlt, rfl⟩ : run + 1 < 2 ∧ d = '\x22' := by
        rwa [not_or, Nat.not_le, not_not] at hd
      obtain rfl : run = 0 := by omega
      rcases s with _ | ⟨e, s⟩
      · exact Or.inr (closing?_of_le (n := 2) (by omega) hrest)
      · exact Or.inl
          (closing?_of_lt (n := 1) (by omega) (head?_escape (Or.inl (Nat.le_refl 2)) s _))

/-- The content of a string over several lines, behind a run of quotes that stand as they are. -/
theorem scanBasic_escape_lines (hrest : ∀ d ∈ rest.head?, d ≠ '\x22') (s taken : List Char)
    (run : Nat) :
    scanBasic true .plain taken (escape true run s ++ (triple '\x22' ++ rest)) =
      some (taken.reverse ++ s, rest) := by
  -- The run is of the writer alone: the reader counts quotes anew at each of them, so that it is
  -- `closing?_escape` that relates the two.
  induction s generalizing run taken with
  | nil => exact scanBasic_closing (closing?_of_le (n := 0) (by omega) hrest)
  | cons c s ih =>
    by_cases hquote : c = '\x22'
    · subst hquote
      by_cases hrun : run < 2
      · rw [escape_quote_of_lt hrun, List.cons_append]
        rcases closing?_escape hrest hrun s with hgoes | hends
        · rw [scanBasic_not_closing hgoes, ih]
          simp
        · exact scanBasic_closing hends
      · rw [escape_quote_of_le (Nat.le_of_not_lt hrun), List.cons_append, List.cons_append,
          scanBasic_escaped_quote, ih]
        simp
    · rw [escape_of_ne hquote, List.append_assoc, scanBasic_escapeChar hquote, ih]
      simp

/-! ### Runs -/

theorem le_longestRunFrom (c : Char) (run longest : Nat) (s : List Char) :
    max run longest ≤ longestRunFrom c run longest s := by
  induction s generalizing run longest with
  | nil => exact Nat.le_refl _
  | cons d s ih =>
    rw [longestRunFrom]
    split
    · exact Nat.le_trans (by omega) (ih (run + 1) longest)
    · exact Nat.le_trans (by omega) (ih 0 (max run longest))

theorem longestRunFrom_mono (c : Char) {run run' longest longest' : Nat} (hrun : run ≤ run')
    (hlongest : longest ≤ longest') (s : List Char) :
    longestRunFrom c run longest s ≤ longestRunFrom c run' longest' s := by
  induction s generalizing run run' longest longest' with
  | nil => simp only [longestRunFrom]; omega
  | cons d s ih =>
    simp only [longestRunFrom]
    split
    · exact ih (Nat.succ_le_succ hrun) hlongest
    · exact ih (Nat.le_refl 0) (by omega)

theorem longestRun_le_cons (c d : Char) (s : List Char) :
    longestRun c s ≤ longestRun c (d :: s) := by
  rw [longestRun, longestRun, longestRunFrom]
  split
  · exact longestRunFrom_mono c (Nat.zero_le 1) (Nat.le_refl 0) s
  · exact Nat.le_refl _

/-- A text without a run of a character does not have the character. -/
theorem not_mem_of_longestRun (h : longestRun c s = 0) : c ∉ s := by
  induction s with
  | nil => exact List.not_mem_nil
  | cons d s ih =>
    have htail := longestRun_le_cons c d s
    rw [List.mem_cons, not_or]
    refine ⟨?_, ih (by omega)⟩
    rintro rfl
    have hrun := le_longestRunFrom c (0 + 1) 0 s
    rw [longestRun, longestRunFrom, if_pos rfl] at h
    omega

/-! ### Strings between apostrophes -/

theorem scanLiteral_plain (hquote : c ≠ '\x27') (hescape : needsEscape c = false)
    (hline : c = '\n' → multi = true) :
    scanLiteral multi taken (c :: rest) = scanLiteral multi (c :: taken) rest := by
  have hreturn : c ≠ '\r' := by
    rintro rfl
    cases hescape
  by_cases hnewline : c = '\n'
  · simp [scanLiteral, hnewline, hline hnewline]
  · have hprint := isPrintable_of_needsEscape hescape hnewline
    simp [scanLiteral, hquote, hnewline, hreturn, hprint, startsNewline]

theorem scanLiteral_closing {more after : List Char} (h : closing? '\x27' rest = some (more, after)) :
    scanLiteral true taken ('\x27' :: rest) = some (taken.reverse ++ more, after) := by
  simp [scanLiteral, h]

theorem scanLiteral_not_closing (h : closing? '\x27' rest = none) :
    scanLiteral true taken ('\x27' :: rest) = scanLiteral true ('\x27' :: taken) rest := by
  simp [scanLiteral, h]

theorem scanLiteral_line (hquote : '\x27' ∉ s) (hline : '\n' ∉ s)
    (hescape : ∀ c ∈ s, needsEscape c = false) (taken rest : List Char) :
    scanLiteral false taken (s ++ '\x27' :: rest) = some (taken.reverse ++ s, rest) := by
  induction s generalizing taken with
  | nil => simp [scanLiteral]
  | cons c s ih =>
    rw [List.mem_cons, not_or] at hquote hline
    rw [List.forall_mem_cons] at hescape
    rw [List.cons_append, scanLiteral_plain (fun h => hquote.1 h.symm) hescape.1
      (fun h => absurd h.symm hline.1), ih hquote.2 hline.2 hescape.2]
    simp

/-- An apostrophe in a text without long runs either does not end the string, or it is the first of
the apostrophes that the string ends in. -/
theorem closing?_literal (hrest : ∀ d ∈ rest.head?, d ≠ quote)
    (hrun : longestRun quote (quote :: s) ≤ 2) :
    closing? quote (s ++ (triple quote ++ rest)) = none ∨
      closing? quote (s ++ (triple quote ++ rest)) = some (quote :: s, rest) := by
  rcases s with _ | ⟨d, s⟩
  · exact Or.inr (closing?_of_le (n := 1) (by omega) hrest)
  · by_cases hd : d = quote
    · subst hd
      rcases s with _ | ⟨e, s⟩
      · exact Or.inr (closing?_of_le (n := 2) (by omega) hrest)
      · -- A third apostrophe would make the run too long.
        have he : e ≠ d := by
          rintro rfl
          have hlong := le_longestRunFrom e (0 + 1 + 1 + 1) 0 s
          simp only [longestRun, longestRunFrom, if_true] at hrun
          omega
        exact Or.inl (closing?_of_lt (n := 1) (by omega) (by simpa using he))
    · exact Or.inl (closing?_of_lt (n := 0) (by omega) (by simpa using hd))

theorem scanLiteral_lines (hrest : ∀ d ∈ rest.head?, d ≠ '\x27')
    (hrun : longestRun '\x27' s ≤ 2) (hescape : ∀ c ∈ s, needsEscape c = false)
    (taken : List Char) :
    scanLiteral true taken (s ++ (triple '\x27' ++ rest)) = some (taken.reverse ++ s, rest) := by
  induction s generalizing taken with
  | nil => exact scanLiteral_closing (closing?_of_le (n := 0) (by omega) hrest)
  | cons c s ih =>
    have htail := ih (Nat.le_trans (longestRun_le_cons _ c s) hrun)
      (List.forall_mem_cons.mp hescape).2
    by_cases hquote : c = '\x27'
    · subst hquote
      rw [List.cons_append]
      rcases closing?_literal hrest hrun with hgoes | hends
      · rw [scanLiteral_not_closing hgoes, htail]
        simp
      · exact scanLiteral_closing hends
    · rw [List.cons_append, scanLiteral_plain hquote (List.forall_mem_cons.mp hescape).1
        (fun _ => rfl), htail]
      simp

/-! ### All forms -/

theorem scanString_quotes_line (h : ∀ t, s ≠ '\x22' :: '\x22' :: t) :
    scanString ('\x22' :: s) = scanBasic false .plain [] s := by
  rw [scanString]
  · rfl
  · rintro t ⟨⟩
    exact h t rfl
  · rintro t ⟨⟩

theorem scanString_apostrophes_line (h : ∀ t, s ≠ '\x27' :: '\x27' :: t) :
    scanString ('\x27' :: s) = scanLiteral false [] s := by
  rw [scanString]
  · rfl
  · rintro t ⟨⟩
  · rintro t ⟨⟩
    exact h t rfl

/-- The line break before the content is left out, and there is none if the content has none. -/
theorem dropNewline_lead {t : List Char}
    (h : '\n' ∉ s → ∀ d ∈ t.head?, d ≠ '\n' ∧ d ≠ '\r') : dropNewline (lead s ++ t) = t := by
  unfold lead
  split
  · rfl
  · next hline =>
    rw [List.contains_iff_mem] at hline
    cases t with
    | nil => rfl
    | cons d t =>
      obtain ⟨hn, hr⟩ := h hline d rfl
      rw [List.nil_append, dropNewline, newline?, Option.getD_none]
      · rintro _ ⟨⟩
        exact hn rfl
      · rintro _ ⟨⟩
        exact hr rfl

theorem scanString_basic (hrest : ∀ d ∈ rest.head?, d ≠ '\x22') (s : List Char) :
    scanString (quoteAs s .basic ++ rest) = some (s, rest) := by
  have hquoted : quoteAs s .basic ++ rest = '\x22' :: (escape false 0 s ++ '\x22' :: rest) := by
    simp [quoteAs]
  rw [hquoted, scanString_quotes_line, scanBasic_escape_line]
  · rfl
  · -- Three quotes at the start would be those around nothing and one behind them.
    intro t
    cases s with
    | nil =>
      rintro ⟨⟩
      exact hrest _ rfl rfl
    | cons c s =>
      by_cases hquote : c = '\x22'
      · subst hquote
        rintro ⟨⟩
      · obtain ⟨d, u, heq, hd, -⟩ := exists_escapeChar_eq_cons false hquote
        rw [escape_of_ne hquote, heq]
        exact fun hstart => hd (List.cons.inj hstart).1

theorem scanString_literal (hrest : ∀ d ∈ rest.head?, d ≠ '\x27') (hquote : '\x27' ∉ s)
    (hline : '\n' ∉ s) (hescape : ∀ c ∈ s, needsEscape c = false) :
    scanString (quoteAs s .literal ++ rest) = some (s, rest) := by
  have hquoted : quoteAs s .literal ++ rest = '\x27' :: (s ++ '\x27' :: rest) := by
    simp [quoteAs]
  rw [hquoted, scanString_apostrophes_line, scanLiteral_line hquote hline hescape]
  · rfl
  · intro t
    cases s with
    | nil =>
      rintro ⟨⟩
      exact hrest _ rfl rfl
    | cons c s =>
      intro hstart
      exact hquote ((List.cons.inj hstart).1 ▸ List.mem_cons_self)

theorem scanString_basicLines (hrest : ∀ d ∈ rest.head?, d ≠ '\x22') (s : List Char) :
    scanString (quoteAs s .basicLines ++ rest) = some (s, rest) := by
  have hquoted : quoteAs s .basicLines ++ rest = '\x22' :: '\x22' :: '\x22' ::
      (lead s ++ (escape true 0 s ++ (triple '\x22' ++ rest))) := by
    simp [quoteAs, triple]
  rw [hquoted, scanString, dropNewline_lead, scanBasic_escape_lines hrest]
  · rfl
  · intro hline d hd
    cases s with
    | nil =>
      cases hd
      decide
    | cons c s =>
      by_cases hquote : c = '\x22'
      · subst hquote
        cases hd
        decide
      · obtain ⟨e, u, heq, -, hr, hn⟩ := exists_escapeChar_eq_cons true hquote
        rw [escape_of_ne hquote, heq] at hd
        cases hd
        exact ⟨hn fun h => hline (h ▸ List.mem_cons_self), hr⟩

theorem scanString_literalLines (hrest : ∀ d ∈ rest.head?, d ≠ '\x27')
    (hrun : longestRun '\x27' s ≤ 2) (hescape : ∀ c ∈ s, needsEscape c = false) :
    scanString (quoteAs s .literalLines ++ rest) = some (s, rest) := by
  have hquoted : quoteAs s .literalLines ++ rest = '\x27' :: '\x27' :: '\x27' ::
      (lead s ++ (s ++ (triple '\x27' ++ rest))) := by
    simp [quoteAs, triple]
  rw [hquoted, scanString, dropNewline_lead, scanLiteral_lines hrest hrun hescape]
  · rfl
  · intro hline d hd
    cases s with
    | nil =>
      cases hd
      decide
    | cons c s =>
      cases hd
      refine ⟨fun h => hline (h ▸ List.mem_cons_self), ?_⟩
      rintro rfl
      cases hescape _ List.mem_cons_self

/-- A string is read back from the form it is written in, if no further quote follows. -/
theorem scanString_quote (hrest : ∀ d ∈ rest.head?, d ≠ '\x22' ∧ d ≠ '\x27') (s : List Char) :
    scanString (Toml.quote s ++ rest) = some (s, rest) := by
  have hquote : ∀ d ∈ rest.head?, d ≠ '\x22' := fun d hd => (hrest d hd).1
  have hapostrophe : ∀ d ∈ rest.head?, d ≠ '\x27' := fun d hd => (hrest d hd).2
  have hplain : s.any needsEscape = false → ∀ c ∈ s, needsEscape c = false := by
    simp
  -- One case for each branch of the choice of a form, with what the choice was made by.
  unfold Toml.quote Form.of
  simp only [Bool.and_eq_true, Bool.not_eq_true', beq_iff_eq, decide_eq_true_eq]
  split_ifs with hbasic hliteral hlines hliteralLines hnewline
  · exact scanString_basic hquote s
  · obtain ⟨⟨hcontrol, hrun⟩, hline⟩ := hliteral
    refine scanString_literal hapostrophe (not_mem_of_longestRun hrun) ?_ (hplain hcontrol)
    simpa using hline
  · exact scanString_basicLines hquote s
  · exact scanString_literalLines hapostrophe hliteralLines.2 (hplain hliteralLines.1)
  · exact scanString_basicLines hquote s
  · exact scanString_basic hquote s

end SymbolSearch.Toml
