/-!
# Pieces of a text

Cutting a text at a separator and joining pieces again. Texts are lists of characters.

## Main definitions

* `Text.splitOn` — the pieces between the occurrences of a separator
* `Text.join` — pieces with a separator between each two
* `Text.afterLast?` — what follows the last character of a class

## Main results

* `Text.join_splitOn` — joining the pieces gives the text back
* `Text.splitOn_ne_nil` — there is always at least one piece
-/

namespace SymbolSearch.Text

/-- The pieces between the occurrences of `sep`; a text without `sep` is its only piece. -/
def splitOn (sep : Char) : List Char → List (List Char)
  | [] => [[]]
  | c :: rest =>
    if c = sep then [] :: splitOn sep rest
    else
      match splitOn sep rest with
      | [] => [[c]]
      | piece :: pieces => (c :: piece) :: pieces

/-- The pieces in order, with `sep` between each two of them. -/
def join (sep : List Char) : List (List Char) → List Char
  | [] => []
  | [piece] => piece
  | piece :: next :: pieces => piece ++ sep ++ join sep (next :: pieces)

/-- What follows the last character in the class `p`, if there is such a character. -/
def afterLast? (p : Char → Bool) : List Char → Option (List Char)
  | [] => none
  | c :: rest =>
    match afterLast? p rest with
    | some tail => some tail
    | none => if p c then some rest else none

/-- Whether `part` occurs somewhere in the text. -/
def contains (part : List Char) : List Char → Bool
  | [] => part.isEmpty
  | c :: rest => part.isPrefixOf (c :: rest) || contains part rest

theorem splitOn_ne_nil (sep : Char) (s : List Char) : splitOn sep s ≠ [] := by
  cases s with
  | nil => simp [splitOn]
  | cons c rest =>
    rw [splitOn]
    split
    · simp
    · split <;> simp

@[simp] theorem join_singleton (sep piece : List Char) : join sep [piece] = piece := rfl

theorem join_cons {sep piece : List Char} {pieces : List (List Char)} (h : pieces ≠ []) :
    join sep (piece :: pieces) = piece ++ sep ++ join sep pieces := by
  cases pieces with
  | nil => exact absurd rfl h
  | cons next pieces => rfl

/-- Joining the pieces of a text with the separator they were cut at gives the text back. -/
theorem join_splitOn (sep : Char) (s : List Char) : join [sep] (splitOn sep s) = s := by
  induction s with
  | nil => rfl
  | cons c rest ih =>
    rw [splitOn]
    split
    · next h => rw [join_cons (splitOn_ne_nil sep rest), ih, h]; rfl
    · split
      · next h => exact absurd h (splitOn_ne_nil sep rest)
      · next piece pieces h =>
        rw [h] at ih
        cases pieces with
        | nil => simpa using ih
        | cons next pieces => simpa [join] using ih

end SymbolSearch.Text
