import Mathlib.Data.List.TakeWhile
import SymbolSearch.Text.Blank

/-!
# Blanks at the ends of a text

## Main results

* `Text.exists_eq_append_trim` — a text is its trimmed form with blanks around it
* `Text.trim_append` — a text that starts and ends without a blank is found inside blanks
-/

namespace SymbolSearch.Text

theorem takeWhile_isBlank (s : List Char) : ∀ c ∈ s.takeWhile isBlank, isBlank c = true :=
  fun _ hc => List.mem_takeWhile_imp hc

theorem exists_eq_append_trimRight (s : List Char) :
    ∃ right, s = trimRight s ++ right ∧ ∀ c ∈ right, isBlank c = true := by
  refine ⟨(s.reverse.takeWhile isBlank).reverse, ?_, fun c hc => ?_⟩
  · rw [trimRight, ← List.reverse_append, List.takeWhile_append_dropWhile, List.reverse_reverse]
  · exact takeWhile_isBlank _ c (List.mem_reverse.mp hc)

theorem exists_eq_append_trim (s : List Char) :
    ∃ left right, s = left ++ (trim s ++ right) ∧ (∀ c ∈ left, isBlank c = true) ∧
      ∀ c ∈ right, isBlank c = true := by
  obtain ⟨right, hright, hblank⟩ := exists_eq_append_trimRight (trimLeft s)
  refine ⟨s.takeWhile isBlank, right, ?_, takeWhile_isBlank s, hblank⟩
  rw [trim, ← hright, trimLeft, List.takeWhile_append_dropWhile]

theorem trimLeft_append {left s : List Char} (hleft : ∀ c ∈ left, isBlank c = true)
    (hs : ∀ c ∈ s.head?, isBlank c = false) : trimLeft (left ++ s) = s := by
  rw [trimLeft, List.dropWhile_append_of_pos hleft]
  cases s with
  | nil => rfl
  | cons c s => exact List.dropWhile_cons_of_neg (by simp [hs c rfl])

theorem trimRight_append {s right : List Char} (hright : ∀ c ∈ right, isBlank c = true)
    (hs : ∀ c ∈ s.getLast?, isBlank c = false) : trimRight (s ++ right) = s := by
  have h : trimLeft (right.reverse ++ s.reverse) = s.reverse :=
    trimLeft_append (fun c hc => hright c (List.mem_reverse.mp hc)) (by simpa using hs)
  rw [trimRight, List.reverse_append]
  exact (congrArg List.reverse h).trans (List.reverse_reverse s)

/-- Trimming finds a text between blanks, if its own ends are no blanks. -/
theorem trim_append {left s right : List Char} (hleft : ∀ c ∈ left, isBlank c = true)
    (hright : ∀ c ∈ right, isBlank c = true) (hne : s ≠ [])
    (hhead : ∀ c ∈ s.head?, isBlank c = false) (hlast : ∀ c ∈ s.getLast?, isBlank c = false) :
    trim (left ++ (s ++ right)) = s := by
  have hstart : ∀ c ∈ (s ++ right).head?, isBlank c = false := by
    cases s with
    | nil => exact absurd rfl hne
    | cons d s => exact hhead
  rw [trim, trimLeft_append hleft hstart, trimRight_append hright hlast]

end SymbolSearch.Text
