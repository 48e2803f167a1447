import Mathlib.Data.List.DropRight
import SymbolSearch.Json.Reader

/-!
# Reading token by token

The reader passes over blanks, takes a token and steps. These are the equations that proofs about
texts use in its place, and what can be told from the first tokens of a text that is read.

## Main results

* `Json.readFrom_nil`, `Json.readFrom_token` — the reader at the end of a text and at a token
* `Json.exists_opening_of_parse?` — an object starts with a brace and a quote or a second brace
-/

namespace SymbolSearch.Json

variable {state : State} {c : Char} {s after : List Char} {token : Token}

/-- The reader as one equation: blanks, a token, a step. -/
theorem readFrom_eq (state : State) (s : List Char) :
    readFrom state s =
      match s.dropWhile isBlank with
      | [] => some state
      | c :: rest => (next? (c :: rest)).bind fun found =>
          (step state found.1).bind fun state => readFrom state found.2 := by
  rw [readFrom]
  split
  · next h => rw [h]
  · next c rest h =>
    rw [h]
    split
    · next hnext => simp only [hnext, Option.bind_none]
    · next token after hnext =>
      simp only [hnext, Option.bind_some]
      cases step state token <;> rfl

theorem readFrom_dropWhile (state : State) (s : List Char) :
    readFrom state (s.dropWhile isBlank) = readFrom state s := by
  rw [readFrom_eq, readFrom_eq state s, List.dropWhile_idempotent]

theorem readFrom_nil (state : State) : readFrom state [] = some state :=
  readFrom_eq state []

theorem readFrom_next (hc : isBlank c = false) :
    readFrom state (c :: s) = (next? (c :: s)).bind fun found =>
      (step state found.1).bind fun state => readFrom state found.2 := by
  rw [readFrom_eq, List.dropWhile_cons_of_neg (by simp [hc])]

theorem readFrom_token (hc : isBlank c = false) (h : next? (c :: s) = some (token, after)) :
    readFrom state (c :: s) = (step state token).bind fun state => readFrom state after := by
  rw [readFrom_next hc, h]
  rfl

/-! ### How an object starts -/

/-- The first character of a closing brace or of a string. -/
theorem head_of_next? (h : next? (c :: s) = some (token, after))
    (htoken : token = .closeBrace ∨ ∃ key, token = .string key) : c = '\x7d' ∨ c = '\x22' := by
  unfold next? at h
  split at h
  all_goals grind

/-- In a text that is read as a value and starts with a brace, the next character that is no blank
is the quote of a key or the closing brace. -/
theorem exists_opening_of_parse? {v : Json} (h : parse? ('\x7b' :: s) = some v) :
    ∃ blanks c rest, s = blanks ++ c :: rest ∧ (∀ b ∈ blanks, isBlank b = true) ∧
      (c = '\x7d' ∨ c = '\x22') := by
  have hopen : readFrom State.start ('\x7b' :: s) = readFrom ⟨.firstKey, [.record []]⟩ s :=
    readFrom_token (s := s) (c := '\x7b') rfl rfl
  rw [parse?, hopen, ← readFrom_dropWhile] at h
  cases hs : s.dropWhile isBlank with
  | nil =>
    rw [hs, readFrom_nil] at h
    cases h
  | cons c rest =>
    have hc : isBlank c = false := by
      have := List.head?_dropWhile_not isBlank s
      rw [hs] at this
      simpa using this
    refine ⟨s.takeWhile isBlank, c, rest, ?_, ?_, ?_⟩
    · rw [← hs, List.takeWhile_append_dropWhile]
    · intro b hb
      exact List.all_eq_true.mp List.all_takeWhile b hb
    · rw [hs] at h
      cases hnext : next? (c :: rest) with
      | none =>
        rw [readFrom_next hc, hnext] at h
        cases h
      | some found =>
        obtain ⟨token, after⟩ := found
        refine head_of_next? hnext ?_
        -- Any other token has no effect before the first key.
        rw [readFrom_token hc hnext] at h
        cases token with
        | closeBrace => exact Or.inl rfl
        | string key => exact Or.inr ⟨key, rfl⟩
        | openBrace => cases h
        | openBracket => cases h
        | closeBracket => cases h
        | comma => cases h
        | colon => cases h
        | scalar v => cases h

end SymbolSearch.Json
