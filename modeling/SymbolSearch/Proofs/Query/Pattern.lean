import Mathlib.Data.Set.Operations
import SymbolSearch.Proofs.Text.Pieces
import SymbolSearch.Query.Pattern

/-!
# Complete patterns

A text is a complete pattern when it has a hash and ends in one of the markers that can end a chain.
Every pattern of a qualified query is complete, whether the query has hashes of its own or only dots,
and a complete pattern is a query with itself as its pattern. So the complete patterns are the texts
that a qualified query can look for, and taking the pattern twice is taking it once.

Pieces without dots and hashes can be joined by either. The pattern of the dotted query has hashes
for the dots and one dot behind the last piece, and so has the pattern of the query with hashes,
unless its end already looks complete.

## Main definitions

* `Query.IsComplete` — a text has a hash and ends in a dot, a hash or a slash

## Main results

* `Query.pattern_of_last_dot` — the pattern of a dotted query
* `Query.isComplete_pattern` — the pattern of a qualified query is complete
* `Query.pattern_of_isComplete` — a complete pattern is its own pattern
* `Query.IsComplete.of_suffix` — a text that ends in a complete pattern is complete
* `Query.pattern_join` — the pattern of pieces joined by dots
* `Query.pattern_join_hash_eq_iff` — when pieces joined by hashes have that pattern
* `Query.pattern_idempotent_and_image_eq` — patterns are normal forms
-/

namespace SymbolSearch.Query

/-- A text has a hash and ends in a dot, a hash or a slash. -/
def IsComplete (text : List Char) : Prop :=
  '#' ∈ text ∧ ∃ c ∈ text.getLast?, c = '.' ∨ c = '#' ∨ c = '/'

variable {query text chain : List Char} {c : Char}

theorem endsPattern_iff : endsPattern c = true ↔ c = '.' ∨ c = '#' ∨ c = '/' := by
  simp [endsPattern, or_assoc]

theorem isComplete_concat_dot (h : '#' ∈ text) : IsComplete (text ++ ['.']) :=
  ⟨List.mem_append_left _ h, '.', List.getLast?_concat, Or.inl rfl⟩

theorem IsComplete.isQualified (h : IsComplete text) : isQualified text = true := by
  have hhash : text.contains '#' = true := List.contains_iff_mem.mpr h.1
  rw [Query.isQualified, hhash, Bool.or_true]

/-- What ends in a complete pattern has its hash and its last character. -/
theorem IsComplete.of_suffix (h : IsComplete text) (hsuffix : text <:+ chain) :
    IsComplete chain := by
  obtain ⟨hhash, c, hc, hmarker⟩ := h
  refine ⟨hsuffix.subset hhash, c, ?_, hmarker⟩
  obtain ⟨start, rfl⟩ := hsuffix
  rw [Option.mem_def] at hc ⊢
  rw [List.getLast?_append, hc, Option.some_or]

/-! ### Queries with a hash -/

/-- A query that ends in a marker does not end in a parameter list, so nothing is added to it. -/
theorem completePattern_of_isComplete (h : IsComplete text) : completePattern text = text := by
  obtain ⟨-, c, hc, hmarker⟩ := h
  have hcall : call.isSuffixOf text = false := by
    rw [← Bool.not_eq_true, List.isSuffixOf_iff_suffix]
    rintro ⟨start, rfl⟩
    have hparen : c = ')' := by simpa [call, eq_comm] using hc
    subst hparen
    revert hmarker
    decide
  rw [Option.mem_def] at hc
  rw [completePattern, hcall, if_neg Bool.false_ne_true, hc]
  exact if_pos (endsPattern_iff.mpr hmarker)

theorem isComplete_completePattern (h : '#' ∈ query) : IsComplete (completePattern query) := by
  unfold completePattern
  split
  · exact isComplete_concat_dot h
  · split
    · next c hc =>
      split
      · next hmarker => exact ⟨h, c, hc, endsPattern_iff.mp hmarker⟩
      · exact isComplete_concat_dot h
    · exact isComplete_concat_dot h

/-- A dot is added exactly if the text does not end in a marker. -/
theorem completePattern_eq_concat_iff :
    completePattern text = text ++ ['.'] ↔ ∀ c ∈ text.getLast?, endsPattern c = false := by
  unfold completePattern
  split
  · next hcall =>
    -- A parameter list ends in a parenthesis, which is no marker.
    obtain ⟨start, rfl⟩ := List.isSuffixOf_iff_suffix.mp hcall
    simp [call, endsPattern]
  · split
    · next c hc =>
      rw [hc]
      split
      · next hmarker => simp [hmarker]
      · next hmarker => simpa using hmarker
    · next hnone => simp [hnone]

/-! ### Queries with dots alone -/

theorem isComplete_hashPattern (scope : List (List Char)) (member : List Char) :
    IsComplete (hashPattern scope member) :=
  isComplete_concat_dot (by simp)

/-- The last dot of a query divides its scope from its member. -/
theorem exists_last_dot (hdot : '.' ∈ query) :
    ∃ scope member, query = scope ++ '.' :: member ∧ '.' ∉ member := by
  obtain ⟨member, scope, heq, hmember⟩ := List.eq_append_cons_of_mem (List.mem_reverse.mpr hdot)
  refine ⟨scope.reverse, member.reverse, ?_, by simpa using hmember⟩
  simpa using congrArg List.reverse heq

/-- The pattern of a dotted query is cut at its last dot. -/
theorem pattern_of_last_dot {scope member : List Char} (hmember : '.' ∉ member)
    (hhash : '#' ∉ scope ++ '.' :: member) :
    pattern (scope ++ '.' :: member) = hashPattern (Text.splitOn '.' scope) member := by
  have hcontains : (scope ++ '.' :: member).contains '#' = false := by simpa using hhash
  -- The scope has at least one piece, so that of the member is not the only one.
  obtain ⟨piece, pieces, hpieces⟩ := List.exists_cons_of_ne_nil
    (List.reverse_ne_nil_iff.mpr (Text.splitOn_ne_nil '.' scope))
  rw [pattern, hcontains, if_neg Bool.false_ne_true, Text.splitOn_append_sep,
    Text.splitOn_of_not_mem hmember, List.reverse_concat, hpieces]
  simp only [← hpieces, List.reverse_reverse]

/-! ### Pieces joined by dots or by hashes -/

section Join

variable {scope : List (List Char)} {member : List Char}

/-- The pattern of a dotted query has hashes for its dots and a dot at the end. -/
theorem pattern_join (hscope : scope ≠ []) (hdot : ∀ piece ∈ scope ++ [member], '.' ∉ piece)
    (hhash : ∀ piece ∈ scope ++ [member], '#' ∉ piece) :
    pattern (Text.join ['.'] (scope ++ [member])) =
      Text.join ['#'] (scope ++ [member]) ++ ['.'] := by
  have hjoin : Text.join ['.'] (scope ++ [member]) = Text.join ['.'] scope ++ '.' :: member := by
    rw [Text.join_concat hscope, List.append_assoc, List.singleton_append]
  have hnone : '#' ∉ Text.join ['.'] scope ++ '.' :: member :=
    hjoin ▸ Text.not_mem_join (by decide) hhash
  rw [List.forall_mem_append] at hdot
  rw [hjoin, pattern_of_last_dot (hdot.2 member List.mem_cons_self) hnone,
    Text.splitOn_join hscope hdot.1, hashPattern, Text.join_concat hscope]

/-- Pieces joined by hashes are completed by a dot exactly if the last piece has an end and this end
is not a slash. -/
theorem pattern_join_hash_eq_iff (hscope : scope ≠ []) (hdot : '.' ∉ member)
    (hhash : '#' ∉ member) :
    pattern (Text.join ['#'] (scope ++ [member])) = Text.join ['#'] (scope ++ [member]) ++ ['.'] ↔
      member ≠ [] ∧ member.getLast? ≠ some '/' := by
  rw [pattern, if_pos (List.contains_iff_mem.mpr (Text.mem_join_concat hscope)),
    completePattern_eq_concat_iff, Text.getLast?_join_concat hscope]
  cases hlast : member.getLast? with
  | none =>
    rw [List.getLast?_eq_none_iff] at hlast
    simp [hlast, endsPattern]
  | some c =>
    have hmem : c ∈ member := List.mem_of_getLast? hlast
    have hne : member ≠ [] := List.ne_nil_of_mem hmem
    have hmarkers : c ≠ '.' ∧ c ≠ '#' := ⟨fun h => hdot (h ▸ hmem), fun h => hhash (h ▸ hmem)⟩
    simp [hne, endsPattern, hmarkers]

end Join

/-! ### All qualified queries -/

theorem isComplete_pattern (hq : isQualified query = true) : IsComplete (pattern query) := by
  by_cases hhash : '#' ∈ query
  · rw [pattern, if_pos (List.contains_iff_mem.mpr hhash)]
    exact isComplete_completePattern hhash
  · have hdot : '.' ∈ query := by simpa [isQualified, hhash] using hq
    obtain ⟨scope, member, rfl, hmember⟩ := exists_last_dot hdot
    rw [pattern_of_last_dot hmember hhash]
    exact isComplete_hashPattern _ member

theorem pattern_of_isComplete (h : IsComplete text) : pattern text = text := by
  rw [pattern, if_pos (List.contains_iff_mem.mpr h.1)]
  exact completePattern_of_isComplete h

/-- A plain query is left as it is. -/
theorem pattern_of_plain (hq : isQualified query = false) : pattern query = query := by
  obtain ⟨hdot, hhash⟩ : '.' ∉ query ∧ '#' ∉ query := by simpa [isQualified] using hq
  have hcontains : query.contains '#' = false := by simpa using hhash
  rw [pattern, hcontains, if_neg Bool.false_ne_true, Text.splitOn_of_not_mem hdot]
  rfl

/-- The pattern of a pattern is that pattern, and the patterns of qualified queries are the texts
that have a hash and end in a dot, a hash or a slash. -/
theorem pattern_idempotent_and_image_eq :
    (∀ query, pattern (pattern query) = pattern query) ∧
      Set.image pattern {query | isQualified query = true} = {text | IsComplete text} := by
  constructor
  · intro query
    cases hq : isQualified query with
    | true => exact pattern_of_isComplete (isComplete_pattern hq)
    | false => rw [pattern_of_plain hq, pattern_of_plain hq]
  · ext text
    constructor
    · intro himage
      obtain ⟨query, hq, heq⟩ := himage
      rw [← heq]
      exact isComplete_pattern hq
    · intro hcomplete
      exact ⟨text, hcomplete.isQualified, pattern_of_isComplete hcomplete⟩

end SymbolSearch.Query
