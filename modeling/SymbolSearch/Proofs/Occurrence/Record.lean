import Mathlib.Algebra.Ring.Int.Defs
import Mathlib.Algebra.Ring.Nat
import Mathlib.Data.Prod.Lex
import SymbolSearch.Occurrence

/-!
# Which records state an occurrence

A record is well-formed if it names a symbol and its numbers tell a range that does not end before
it starts. The numbers are signed, and lines and columns are unsigned words of the same width; a
number that is not negative is the same in both readings, so that a line or a column is less than
half of what a word could hold. The mask of roles is the word with the same bits.

## Main definitions

* `Span.Tells` — the start and the end that a list of numbers tells
* `Record.WellFormed` — a record states an occurrence
* `Occurrence.Restates` — an occurrence is the one that a record states

## Main results

* `Span.ofRange?_eq_some_iff` — reading a range
* `Occurrence.ofRecord?_eq_some_iff` — the occurrence of a record
* `Occurrence.Restates.coordinate_lt` — lines and columns of an occurrence are bounded
* `Occurrence.isSome_ofRecord?_iff` — the records that have an occurrence
-/

namespace SymbolSearch

/-! ### Words -/

/-- A signed word and the unsigned word with the same bits are equal modulo the number of words. -/
theorem toNat_toUInt32 (n : Int32) : (n.toUInt32.toNat : ℤ) = n.toInt % 2 ^ 32 := by
  have hunsigned : n.toUInt32.toNat = n.toBitVec.toNat := rfl
  have hsigned : n.toInt = (n.toBitVec.toNat : ℤ).bmod (2 ^ 32) := n.toBitVec.toInt_eq_toNat_bmod
  have hlt : n.toBitVec.toNat < 2 ^ 32 := n.toBitVec.isLt
  rw [hunsigned, hsigned, Int.bmod]
  omega

namespace Span

/-- The line and the column of the start. -/
def start (s : Span) : ℤ × ℤ := (s.line.toNat, s.column.toNat)

/-- The line and the column of the end. -/
def stop (s : Span) : ℤ × ℤ := (s.endLine.toNat, s.endColumn.toNat)

/-- A list of numbers tells a start and an end: three numbers an end on the line of the start, and
of more than three the first four count. -/
def Tells (range : List ℤ) (start stop : ℤ × ℤ) : Prop :=
  range = [start.1, start.2, stop.2] ∧ stop.1 = start.1 ∨
    [start.1, start.2, stop.1, stop.2] <+: range

variable {range : List ℤ} {start stop : ℤ × ℤ}

theorem Tells.three_le_length (h : Tells range start stop) : 3 ≤ range.length := by
  rcases h with ⟨rfl, -⟩ | hfour
  · exact le_rfl
  · exact le_trans (by simp) hfour.length_le

/-- The numbers that count are the lines and the columns. -/
theorem Tells.mem_take_iff (h : Tells range start stop) (n : ℤ) :
    n ∈ range.take 4 ↔ n ∈ [start.1, start.2, stop.1, stop.2] := by
  rcases h with ⟨rfl, hline⟩ | ⟨rest, rfl⟩
  · simp only [List.take_succ_cons, List.take_nil, List.mem_cons, hline]
    tauto
  · rfl

/-! ### Reading a range -/

theorem coordinate?_eq_some_iff {n : Int32} {u : UInt32} :
    coordinate? n = some u ↔ n.toInt = u.toNat := by
  have hmod := toNat_toUInt32 n
  have hlt := n.toInt_lt
  have hu := u.toNat_lt
  have hneg : n < 0 ↔ n.toInt < 0 := by rw [Int32.lt_iff_toInt_lt, Int32.toInt_zero]
  rw [coordinate?]
  split
  · next h =>
    rw [hneg] at h
    constructor
    · rintro ⟨⟩
    · omega
  · next h =>
    rw [hneg] at h
    rw [Option.some_inj, ← UInt32.toNat_inj]
    omega

theorem mapM_coordinate?_eq_some_iff {numbers : List Int32} {words : List UInt32} :
    numbers.mapM coordinate? = some words ↔
      numbers.map Int32.toInt = words.map fun u => (u.toNat : ℤ) := by
  induction numbers generalizing words with
  | nil => cases words <;> simp
  | cons n numbers ih =>
    cases words <;> simp [Option.bind_eq_some_iff, coordinate?_eq_some_iff, ih]

theorem isReversed_eq_false_iff (s : Span) :
    s.isReversed = false ↔ toLex s.start ≤ toLex s.stop := by
  rw [Prod.Lex.toLex_le_toLex, ← Bool.not_eq_true]
  simp only [isReversed, Bool.or_eq_true, Bool.and_eq_true, decide_eq_true_eq, beq_iff_eq,
    ← UInt32.toNat_inj, UInt32.lt_iff_toNat_lt, start, stop]
  omega

theorem guard_isReversed_eq_some_iff {s span : Span} :
    (if s.isReversed then none else some s) = some span ↔ s = span ∧ span.isReversed = false := by
  split
  · next h =>
    constructor
    · rintro ⟨⟩
    · rintro ⟨rfl, hnot⟩
      exact absurd h (hnot ▸ Bool.false_ne_true)
  · next h =>
    rw [Option.some_inj, iff_self_and]
    rintro rfl
    exact Bool.not_eq_true _ ▸ h

/-- A range has three words or four. -/
theorem ofRange?_eq_some_iff_words {range : List Int32} {span : Span} :
    ofRange? range = some span ↔
      ((range.take 4).mapM coordinate? = some [span.line, span.column, span.endColumn] ∧
          span.endLine = span.line ∨
        (range.take 4).mapM coordinate? =
          some [span.line, span.column, span.endLine, span.endColumn]) ∧
        span.isReversed = false := by
  obtain ⟨line, column, endLine, endColumn⟩ := span
  rw [ofRange?]
  cases hwords : (range.take 4).mapM coordinate? with
  | none => simp
  | some words =>
    simp only [Option.bind_eq_bind, Option.bind_some, Option.some.injEq]
    split
    · -- Three words end on the line where they start, so they leave the end line no choice.
      rw [guard_isReversed_eq_some_iff]
      apply and_congr_left'
      constructor
      · rintro ⟨⟩
        exact Or.inl ⟨rfl, rfl⟩
      · rintro (⟨⟨⟩, rfl⟩ | ⟨⟨⟩⟩)
        rfl
    · rw [guard_isReversed_eq_some_iff]
      apply and_congr_left'
      constructor
      · rintro ⟨⟩
        exact Or.inr rfl
      · rintro (⟨⟨⟩, -⟩ | ⟨⟨⟩⟩)
        rfl
    · next hthree hfour =>
      -- With any other number of words nothing is read, and neither list can be theirs.
      constructor
      · rintro ⟨⟩
      · rintro ⟨⟨h, -⟩ | h, -⟩
        · exact (hthree _ _ _ h).elim
        · exact (hfour _ _ _ _ h).elim

theorem take_four_eq_iff {numbers : List ℤ} {a b c : ℤ} :
    numbers.take 4 = [a, b, c] ↔ numbers = [a, b, c] := by
  constructor
  · intro h
    have hlength := congrArg List.length h
    rw [List.length_take, List.length_cons, List.length_cons, List.length_singleton] at hlength
    rw [← h, List.take_of_length_le (by omega)]
  · rintro rfl
    rfl

/-- A span is read from a range exactly if the numbers tell its start and its end, and these are in
order. -/
theorem ofRange?_eq_some_iff {range : List Int32} {span : Span} :
    ofRange? range = some span ↔
      Tells (range.map Int32.toInt) span.start span.stop ∧
        toLex span.start ≤ toLex span.stop := by
  rw [ofRange?_eq_some_iff_words, isReversed_eq_false_iff, mapM_coordinate?_eq_some_iff,
    mapM_coordinate?_eq_some_iff, List.map_take, Tells, List.prefix_iff_eq_take]
  apply and_congr_left'
  apply or_congr
  · apply and_congr take_four_eq_iff
    rw [stop, start, Int.natCast_inj, UInt32.toNat_inj]
  · exact eq_comm

/-- Numbers that are not negative tell a start and an end that words can hold. -/
theorem Tells.exists_span {numbers : List Int32} {start stop : ℤ × ℤ}
    (h : Tells (numbers.map Int32.toInt) start stop) (hnonneg : ∀ n ∈ numbers.take 4, 0 ≤ n.toInt) :
    ∃ span : Span, span.start = start ∧ span.stop = stop := by
  -- Each line and column is one of the numbers, and as a number it is less than half of a word.
  have hword : ∀ x ∈ [start.1, start.2, stop.1, stop.2], ∃ u : UInt32, (u.toNat : ℤ) = x := by
    intro x hx
    rw [← h.mem_take_iff, ← List.map_take] at hx
    obtain ⟨n, hn, rfl⟩ := List.mem_map.mp hx
    refine ⟨n.toUInt32, ?_⟩
    have hlower := hnonneg n hn
    have hupper := n.toInt_lt
    rw [toNat_toUInt32]
    omega
  obtain ⟨line, hline⟩ := hword start.1 (by simp)
  obtain ⟨column, hcolumn⟩ := hword start.2 (by simp)
  obtain ⟨endLine, hendLine⟩ := hword stop.1 (by simp)
  obtain ⟨endColumn, hendColumn⟩ := hword stop.2 (by simp)
  exact ⟨⟨line, column, endLine, endColumn⟩, Prod.ext hline hcolumn, Prod.ext hendLine hendColumn⟩

end Span

/-! ### Records -/

/-- A record names a symbol, and its range has three numbers or more, of which those that count are
not negative and tell an end that does not come before the start. -/
structure Record.WellFormed (record : Record) : Prop where
  symbol_ne_empty : record.symbol ≠ ""
  three_le_length : 3 ≤ record.range.length
  nonneg : ∀ n ∈ record.range.take 4, 0 ≤ n.toInt
  in_order : ∃ start stop, Span.Tells (record.range.map Int32.toInt) start stop ∧
    toLex start ≤ toLex stop

namespace Occurrence

/-- The range that an occurrence covers. -/
def span (o : Occurrence) : Span := ⟨o.line, o.column, o.endLine, o.endColumn⟩

/-- The lines and the columns of an occurrence. -/
def coordinates (o : Occurrence) : List UInt32 := [o.line, o.column, o.endLine, o.endColumn]

/-- An occurrence says what a record of the document at `path` says. Where the record leaves the
kind open, it is `kind`. -/
structure Restates (o : Occurrence) (path : String) (record : Record) (kind : SymbolKind) :
    Prop where
  symbol_ne_empty : o.symbol ≠ ""
  symbol_eq : o.symbol = record.symbol
  file_eq : o.file = path
  tells : Span.Tells (record.range.map Int32.toInt) o.span.start o.span.stop
  in_order : toLex o.span.start ≤ toLex o.span.stop
  roles_eq : (o.roles.mask.toNat : ℤ) = record.roles.toInt % 2 ^ 32
  kind_eq : o.kind = some (record.kind.getD kind)

variable {path : String} {record : Record} {kind : SymbolKind} {o : Occurrence}

/-- An occurrence is made of a record exactly if it says the same. -/
theorem ofRecord?_eq_some_iff :
    ofRecord? path record kind = some o ↔ o.Restates path record kind := by
  rw [ofRecord?]
  split
  · next hempty =>
    constructor
    · rintro ⟨⟩
    · intro h
      rw [String.isEmpty_iff, ← h.symbol_eq] at hempty
      exact absurd hempty h.symbol_ne_empty
  · next hne =>
    rw [Option.map_eq_some_iff]
    constructor
    · rintro ⟨span, hspan, rfl⟩
      obtain ⟨htells, horder⟩ := Span.ofRange?_eq_some_iff.mp hspan
      exact ⟨by simpa using hne, rfl, rfl, htells, horder, toNat_toUInt32 _, rfl⟩
    · intro h
      refine ⟨o.span, Span.ofRange?_eq_some_iff.mpr ⟨h.tells, h.in_order⟩, ?_⟩
      -- Of the fields only the roles are told by a number instead of the word itself.
      have hroles : o.roles = ⟨record.roles.toUInt32⟩ := by
        apply congrArg Roles.mk
        rw [← UInt32.toNat_inj, ← Int.natCast_inj, h.roles_eq, toNat_toUInt32]
      rw [← h.symbol_eq, ← h.file_eq, ← h.kind_eq, ← hroles]
      rfl

/-- The numbers of a record that count are the lines and the columns of its occurrence. -/
theorem Restates.mem_take_iff (h : o.Restates path record kind) (n : ℤ) :
    n ∈ (record.range.take 4).map Int32.toInt ↔ n ∈ o.coordinates.map fun u => (u.toNat : ℤ) := by
  rw [List.map_take]
  exact h.tells.mem_take_iff n

/-- Lines and columns come from signed words, so they leave the highest bit unset. -/
theorem Restates.coordinate_lt (h : o.Restates path record kind) :
    ∀ n ∈ o.coordinates, n.toNat < 2 ^ 31 := by
  intro n hn
  obtain ⟨m, -, hm⟩ := List.mem_map.mp ((h.mem_take_iff _).mpr (List.mem_map_of_mem hn))
  have hlt := m.toInt_lt
  omega

/-- The records that state an occurrence are the well-formed ones. -/
theorem isSome_ofRecord?_iff : (ofRecord? path record kind).isSome = true ↔ record.WellFormed := by
  constructor
  · intro hsome
    obtain ⟨o, ho⟩ := Option.isSome_iff_exists.mp hsome
    have h := ofRecord?_eq_some_iff.mp ho
    refine ⟨h.symbol_eq ▸ h.symbol_ne_empty, ?_, ?_, _, _, h.tells, h.in_order⟩
    · simpa using h.tells.three_le_length
    · intro n hn
      obtain ⟨u, -, hu⟩ := List.mem_map.mp ((h.mem_take_iff _).mp (List.mem_map_of_mem hn))
      omega
  · intro h
    obtain ⟨start, stop, htells, horder⟩ := h.in_order
    obtain ⟨span, rfl, rfl⟩ := htells.exists_span h.nonneg
    have hspan := Span.ofRange?_eq_some_iff.mpr ⟨htells, horder⟩
    have hne : ¬ record.symbol.isEmpty = true := by simpa using h.symbol_ne_empty
    rw [ofRecord?, if_neg hne, hspan]
    rfl

end Occurrence

end SymbolSearch
