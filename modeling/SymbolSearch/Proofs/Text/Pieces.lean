import SymbolSearch.Text.Pieces

/-!
# Joining and cutting

Pieces without the separator survive being joined and cut again, and the last character of a class
is the one behind which no other stands.

## Main results

* `Text.takeWhile_dropWhile_append` — cutting off a run of characters
* `Text.splitOn_join` — cutting a joined text gives the pieces
* `Text.not_mem_join` — a joined text has no characters but those of the pieces and the separator
* `Text.afterLast?_eq_some_iff`, `Text.afterLast?_eq_none_iff` — what follows the last character of
  a class
-/

namespace SymbolSearch.Text

variable {sep : Char} {piece rest : List Char} {pieces : List (List Char)}

/-- A run of characters of a class is cut off where the class ends. -/
theorem takeWhile_dropWhile_append {p : Char → Bool} (hpiece : ∀ c ∈ piece, p c = true)
    (hrest : ∀ c ∈ rest.head?, p c = false) :
    (piece ++ rest).takeWhile p = piece ∧ (piece ++ rest).dropWhile p = rest := by
  rw [List.takeWhile_append_of_pos hpiece, List.dropWhile_append_of_pos hpiece]
  cases rest with
  | nil => simp
  | cons c rest => simp [hrest c rfl]

theorem splitOn_of_not_mem (h : sep ∉ piece) : splitOn sep piece = [piece] := by
  induction piece with
  | nil => rfl
  | cons c piece ih =>
    rw [List.mem_cons, not_or] at h
    rw [splitOn, if_neg fun heq => h.1 heq.symm, ih h.2]

/-- A separator cuts a text in two, whatever stands before it. -/
theorem splitOn_append_sep (sep : Char) (s rest : List Char) :
    splitOn sep (s ++ sep :: rest) = splitOn sep s ++ splitOn sep rest := by
  induction s with
  | nil => simp [splitOn]
  | cons c s ih =>
    rw [List.cons_append, splitOn, splitOn, ih]
    split
    · rfl
    · obtain ⟨piece, pieces, heq⟩ := List.exists_cons_of_ne_nil (splitOn_ne_nil sep s)
      rw [heq]
      rfl

/-- A separator behind a piece without separators ends the piece. -/
theorem splitOn_append (h : sep ∉ piece) :
    splitOn sep (piece ++ sep :: rest) = piece :: splitOn sep rest := by
  rw [splitOn_append_sep, splitOn_of_not_mem h, List.singleton_append]

theorem splitOn_join (hne : pieces ≠ []) (h : ∀ piece ∈ pieces, sep ∉ piece) :
    splitOn sep (join [sep] pieces) = pieces := by
  induction pieces with
  | nil => exact absurd rfl hne
  | cons piece pieces ih =>
    rw [List.forall_mem_cons] at h
    cases pieces with
    | nil => exact splitOn_of_not_mem h.1
    | cons next pieces =>
      rw [join_cons (List.cons_ne_nil next pieces), List.append_assoc, List.singleton_append,
        splitOn_append h.1, ih (List.cons_ne_nil next pieces) h.2]

theorem join_concat {sep : List Char} (hne : pieces ≠ []) :
    join sep (pieces ++ [piece]) = join sep pieces ++ sep ++ piece := by
  induction pieces with
  | nil => exact absurd rfl hne
  | cons first pieces ih =>
    cases pieces with
    | nil => rfl
    | cons next pieces =>
      have hnext : next :: pieces ≠ [] := List.cons_ne_nil next pieces
      rw [List.cons_append, join_cons (by simp), ih hnext, join_cons hnext]
      simp only [List.append_assoc]

/-- A separator stands in front of the last of several pieces. -/
theorem mem_join_concat (hne : pieces ≠ []) : sep ∈ join [sep] (pieces ++ [piece]) := by
  rw [join_concat hne]
  simp

/-- Joined pieces end as the last piece does, or in the separator in front of it. -/
theorem getLast?_join_concat (hne : pieces ≠ []) :
    (join [sep] (pieces ++ [piece])).getLast? = piece.getLast?.or (some sep) := by
  rw [join_concat hne, List.getLast?_append, List.getLast?_concat]

theorem not_mem_join {sep : List Char} {c : Char} (hsep : c ∉ sep)
    (h : ∀ piece ∈ pieces, c ∉ piece) : c ∉ join sep pieces := by
  induction pieces with
  | nil => exact List.not_mem_nil
  | cons piece pieces ih =>
    rw [List.forall_mem_cons] at h
    cases pieces with
    | nil => exact h.1
    | cons next pieces =>
      rw [join_cons (List.cons_ne_nil next pieces)]
      simp only [List.mem_append, not_or]
      exact ⟨⟨h.1, hsep⟩, ih h.2⟩

/-! ### The last character of a class -/

section AfterLast

variable {p : Char → Bool} {s tail : List Char}

theorem afterLast?_eq_none_iff : afterLast? p s = none ↔ ∀ c ∈ s, p c = false := by
  induction s with
  | nil => simp [afterLast?]
  | cons c s ih =>
    rw [afterLast?, List.forall_mem_cons, ← ih]
    cases afterLast? p s <;> simp

theorem afterLast?_append_cons {c : Char} (before : List Char) (hc : p c = true)
    (htail : ∀ d ∈ tail, p d = false) : afterLast? p (before ++ c :: tail) = some tail := by
  induction before with
  | nil =>
    rw [List.nil_append, afterLast?, afterLast?_eq_none_iff.mpr htail, hc]
    rfl
  | cons d before ih => rw [List.cons_append, afterLast?, ih]

theorem afterLast?_eq_some_iff :
    afterLast? p s = some tail ↔
      ∃ before c, s = before ++ c :: tail ∧ p c = true ∧ ∀ d ∈ tail, p d = false := by
  constructor
  · intro h
    induction s with
    | nil => simp [afterLast?] at h
    | cons c s ih =>
      rw [afterLast?] at h
      cases hs : afterLast? p s with
      | some rest =>
        rw [hs] at h ih
        obtain ⟨before, d, rfl, hd⟩ := ih h
        exact ⟨c :: before, d, rfl, hd⟩
      | none =>
        rw [hs] at h
        obtain ⟨hc, rfl⟩ : p c = true ∧ s = tail := by simpa using h
        exact ⟨[], c, rfl, hc, afterLast?_eq_none_iff.mp hs⟩
  · rintro ⟨before, c, rfl, hc, htail⟩
    exact afterLast?_append_cons before hc htail

end AfterLast

end SymbolSearch.Text
