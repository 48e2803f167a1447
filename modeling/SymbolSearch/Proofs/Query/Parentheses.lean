import SymbolSearch.Proofs.Query.Pattern

/-!
# Parentheses in queries

A parenthesis in a query is a sign of a method. The kind that is guessed from a dotted query is the
kind of the chains that its pattern can end, as long as the parentheses are those of a parameter list
at its end; a parenthesis elsewhere lets a method be guessed, and the pattern is that of a term.

A parameter list can also be dropped from a query. The parentheses are counted from the first one on,
so one is always open until the list ends: what is counted is how many more were opened than closed,
and the counting stops where the two are equal for the first time.

## Main definitions

* `Query.Closes` — a text has a start that closes some parentheses more than it opens
* `Query.OpensGroup` — a text has a start that closes as many parentheses as it opens

## Main results

* `Query.guessKind?_eq_ofChain_pattern_iff` — when the guessed kind is the kind of the pattern
* `Query.guessKind?_eq_ofChain_pattern` — a parameter list at the end does not mislead
* `Query.closing_cases` — open parentheses are closed or stay open
* `Query.dropParameters_eq_iff_and_idempotent` — what is dropped from a query
-/

namespace SymbolSearch.Query

variable {query before after text rest : List Char} {depth : Nat} {c : Char}

/-! ### The kind that a query shows -/

/-- A text without a character is an ending of the whole exactly if it is one of what stands behind
the character. -/
theorem suffix_append_cons_iff {part : List Char} (h : c ∉ part) :
    part <:+ before ++ c :: after ↔ part <:+ after := by
  constructor
  · intro hsuffix
    obtain hshort | hlong :=
      List.suffix_or_suffix_of_suffix hsuffix (List.suffix_append before (c :: after))
    · obtain rfl | hafter := List.suffix_cons_iff.mp hshort
      · exact absurd List.mem_cons_self h
      · exact hafter
    · exact absurd (hlong.subset List.mem_cons_self) h
  · intro hsuffix
    exact (hsuffix.trans (List.suffix_cons c after)).trans (List.suffix_append before (c :: after))

/-- A chain that ends in a dot is that of a method or of a term. -/
theorem ofChain_concat_dot (text : List Char) :
    SymbolKind.ofChain (text ++ ['.']) = if call.isSuffixOf text then .method else .term := by
  have hsuffix : ['(', ')', '.'].isSuffixOf (text ++ ['.']) = call.isSuffixOf text := by
    have hdot : call ++ ['.'] <:+ text ++ ['.'] ↔ call <:+ text := List.suffix_append_self_iff
    rw [Bool.eq_iff_iff, List.isSuffixOf_iff_suffix, List.isSuffixOf_iff_suffix]
    exact hdot
  rw [SymbolKind.ofChain, hsuffix, List.getLast?_concat]
  rfl

/-- The pattern of a dotted query is that of a method exactly if the query ends in a parameter
list. -/
theorem ofChain_pattern (hdot : '.' ∈ query) (hhash : '#' ∉ query) :
    SymbolKind.ofChain (pattern query) = if call.isSuffixOf query then .method else .term := by
  obtain ⟨scope, member, rfl, hmember⟩ := exists_last_dot hdot
  -- The query and its pattern have the member in common, and neither separator is in the list.
  have hcall : call.isSuffixOf (Text.join ['#'] (Text.splitOn '.' scope) ++ '#' :: member) =
      call.isSuffixOf (scope ++ '.' :: member) := by
    rw [Bool.eq_iff_iff, List.isSuffixOf_iff_suffix, List.isSuffixOf_iff_suffix,
      suffix_append_cons_iff (by decide), suffix_append_cons_iff (by decide)]
  rw [pattern_of_last_dot hmember hhash, hashPattern, ofChain_concat_dot, ← hcall,
    List.append_assoc, List.singleton_append]

theorem guessKind?_of_dot (hdot : '.' ∈ query) :
    guessKind? query = some (if '(' ∈ query then .method else .term) := by
  rw [guessKind?, List.contains_iff_mem.mpr hdot]
  simp only [List.contains_iff_mem]
  split <;> rfl

/-- The kind guessed from a dotted query is the kind of its pattern exactly if the query has no
parenthesis or ends in a parameter list. -/
theorem guessKind?_eq_ofChain_pattern_iff (hdot : '.' ∈ query) (hhash : '#' ∉ query) :
    guessKind? query = some (SymbolKind.ofChain (pattern query)) ↔
      ('(' ∈ query → call <:+ query) := by
  rw [guessKind?_of_dot hdot, ofChain_pattern hdot hhash, Option.some_inj]
  by_cases hcall : call <:+ query
  · have hparen : '(' ∈ query := hcall.subset (by decide)
    simp [hcall, hparen]
  · by_cases hparen : '(' ∈ query <;> simp [hcall, hparen]

/-- The kind guessed from a dotted query is the kind of its pattern, if no parenthesis is opened in
the query but that of a parameter list at its end. -/
theorem guessKind?_eq_ofChain_pattern (hdot : '.' ∈ query) (hhash : '#' ∉ query)
    (hcall : '(' ∉ query ∨ ∃ before, query = before ++ call ∧ '(' ∉ before) :
    guessKind? query = some (SymbolKind.ofChain (pattern query)) := by
  refine (guessKind?_eq_ofChain_pattern_iff hdot hhash).mpr fun hparen => ?_
  obtain hnone | ⟨before, rfl, -⟩ := hcall
  · exact absurd hparen hnone
  · exact List.suffix_append before call

/-- A query with empty pieces and a method without a name. -/
def namelessCall : List Char := ['A', '.', '.', '(', ')']

theorem guessKind?_eq_ofChain_pattern_namelessCall :
    '.' ∈ namelessCall ∧ '#' ∉ namelessCall ∧
      (namelessCall = ['A', '.', '.'] ++ call ∧ '(' ∉ ['A', '.', '.']) ∧
      guessKind? namelessCall = some (SymbolKind.ofChain (pattern namelessCall)) :=
  ⟨by decide, by decide, by decide,
    guessKind?_eq_ofChain_pattern (by decide) (by decide)
      (.inr ⟨['A', '.', '.'], by decide, by decide⟩)⟩

/-! ### Counting parentheses -/

/-- A text has a start in which `depth` parentheses more are closed than opened. -/
def Closes (depth : Nat) (text : List Char) : Prop :=
  ∃ start, start <+: text ∧ start.count ')' = start.count '(' + depth

theorem closes_zero (text : List Char) : Closes 0 text := ⟨[], List.nil_prefix, rfl⟩

theorem not_closes_nil (hdepth : 0 < depth) : ¬ Closes depth [] := by
  rintro ⟨start, hstart, hcount⟩
  rw [List.prefix_nil.mp hstart, List.count_nil, List.count_nil] at hcount
  omega

/-- What closes open parentheses is not empty, so it starts with the first character. -/
theorem closes_cons_iff (hdepth : 0 < depth) :
    Closes depth (c :: rest) ↔
      ∃ start, start <+: rest ∧ (c :: start).count ')' = (c :: start).count '(' + depth := by
  constructor
  · rintro ⟨start, hstart, hcount⟩
    obtain rfl | ⟨later, rfl, hlater⟩ := List.prefix_cons_iff.mp hstart
    · rw [List.count_nil, List.count_nil] at hcount
      omega
    · exact ⟨later, hlater, hcount⟩
  · rintro ⟨later, hlater, hcount⟩
    exact ⟨c :: later, (List.prefix_cons_inj c).mpr hlater, hcount⟩

theorem closes_open_iff (hdepth : 0 < depth) :
    Closes depth ('(' :: rest) ↔ Closes (depth + 1) rest := by
  rw [closes_cons_iff hdepth]
  refine exists_congr fun start => and_congr_right fun _ => ?_
  rw [List.count_cons_of_ne (by decide), List.count_cons_self]
  omega

theorem closes_close_iff (outer : Nat) : Closes (outer + 1) (')' :: rest) ↔ Closes outer rest := by
  rw [closes_cons_iff (Nat.succ_pos outer)]
  refine exists_congr fun start => and_congr_right fun _ => ?_
  rw [List.count_cons_self, List.count_cons_of_ne (by decide)]
  omega

theorem closes_of_ne_iff (hopen : c ≠ '(') (hclose : c ≠ ')') (hdepth : 0 < depth) :
    Closes depth (c :: rest) ↔ Closes depth rest := by
  rw [closes_cons_iff hdepth]
  refine exists_congr fun start => and_congr_right fun _ => ?_
  rw [List.count_cons_of_ne hopen, List.count_cons_of_ne hclose]

theorem closing_open (depth : Nat) (rest : List Char) :
    closing depth ('(' :: rest) = closing (depth + 1) rest := rfl

theorem closing_close (outer : Nat) (rest : List Char) :
    closing (outer + 2) (')' :: rest) = closing (outer + 1) rest := rfl

theorem closing_of_ne (hopen : c ≠ '(') (hclose : c ≠ ')') :
    closing depth (c :: rest) = closing depth rest :=
  (if_neg hopen).trans (if_neg hclose)

/-- Open parentheses are closed by a start of the text or stay open. None is closed that is not
open. -/
theorem closing_cases (hdepth : 0 < depth) (text : List Char) :
    Closes depth text ∧ closing depth text = .closed ∨
      ¬ Closes depth text ∧ closing depth text = .unclosed := by
  induction text generalizing depth with
  | nil => exact .inr ⟨not_closes_nil hdepth, rfl⟩
  | cons c rest ih =>
    by_cases hopen : c = '('
    · subst hopen
      rw [closing_open, closes_open_iff hdepth]
      exact ih (Nat.succ_pos depth)
    · by_cases hclose : c = ')'
      · subst hclose
        match depth, hdepth with
        -- The text is not read beyond the place where nothing is open, so the count stays positive.
        | 1, _ => exact .inl ⟨(closes_close_iff 0).mpr (closes_zero rest), rfl⟩
        | outer + 2, _ =>
          rw [closing_close, closes_close_iff]
          exact ih (Nat.succ_pos outer)
      · rw [closing_of_ne hopen hclose, closes_of_ne_iff hopen hclose hdepth]
        exact ih hdepth

/-! ### Dropping a parameter list -/

/-- A query is divided where its first parenthesis is opened, or at its end. -/
theorem takeWhile_dropWhile_paren (hbefore : '(' ∉ before) (hrest : ∀ c ∈ rest.head?, c = '(') :
    (before ++ rest).takeWhile (· != '(') = before ∧
      (before ++ rest).dropWhile (· != '(') = rest := by
  apply Text.takeWhile_dropWhile_append
  · intro c hc
    exact bne_iff_ne.mpr fun heq => hbefore (heq ▸ hc)
  · intro c hc
    rw [hrest c hc]
    rfl

theorem dropWhile_of_not_mem (h : '(' ∉ query) : query.dropWhile (· != '(') = [] := by
  have hend : ∀ c ∈ ([] : List Char).head?, c = '(' := by simp
  have hdrop := (takeWhile_dropWhile_paren h hend).2
  rwa [List.append_nil] at hdrop

theorem dropWhile_append_paren (h : '(' ∉ before) :
    (before ++ '(' :: after).dropWhile (· != '(') = '(' :: after :=
  (takeWhile_dropWhile_paren h (by simp)).2

theorem closing_dropWhile_ne_stray (query : List Char) :
    closing 0 (query.dropWhile (· != '(')) ≠ .stray := by
  by_cases hparen : '(' ∈ query
  · obtain ⟨before, after, rfl, hbefore⟩ := List.eq_append_cons_of_mem hparen
    rw [dropWhile_append_paren hbefore, closing_open]
    obtain ⟨-, hclosing⟩ | ⟨-, hclosing⟩ := closing_cases Nat.one_pos after
    all_goals
      rw [hclosing]
      exact Closing.noConfusion
  · rw [dropWhile_of_not_mem hparen]
    exact Closing.noConfusion

theorem dropParameters_of_not_mem (h : '(' ∉ query) : dropParameters query = query := by
  rw [dropParameters, dropWhile_of_not_mem h]
  rfl

theorem dropParameters_of_closes (h : '(' ∉ before) (hcloses : Closes 1 after) :
    dropParameters (before ++ '(' :: after) = before := by
  obtain ⟨-, hclosed⟩ | ⟨hnot, -⟩ := closing_cases Nat.one_pos after
  · rw [dropParameters, dropWhile_append_paren h, closing_open, hclosed]
    exact (takeWhile_dropWhile_paren h (by simp)).1
  · exact absurd hcloses hnot

theorem dropParameters_of_not_closes (h : '(' ∉ before) (hcloses : ¬ Closes 1 after) :
    dropParameters (before ++ '(' :: after) = before ++ '(' :: after := by
  obtain ⟨hclosed, -⟩ | ⟨-, hunclosed⟩ := closing_cases Nat.one_pos after
  · exact absurd hclosed hcloses
  · rw [dropParameters, dropWhile_append_paren h, closing_open, hunclosed]

/-- A query loses everything from its first parenthesis on, or nothing. -/
theorem not_mem_or_dropParameters_eq (query : List Char) :
    '(' ∉ dropParameters query ∨ dropParameters query = query := by
  unfold dropParameters
  split
  · left
    intro hmem
    simpa using List.all_eq_true.mp List.all_takeWhile _ hmem
  · exact .inr rfl

/-- A text has a start, not empty, that closes as many parentheses as it opens. -/
def OpensGroup (text : List Char) : Prop :=
  ∃ group, group ≠ [] ∧ group <+: text ∧ group.count ')' = group.count '('

theorem opensGroup_iff : OpensGroup ('(' :: after) ↔ Closes 1 after := by
  constructor
  · rintro ⟨group, hne, hgroup, hcount⟩
    obtain rfl | ⟨start, rfl, hstart⟩ := List.prefix_cons_iff.mp hgroup
    · exact absurd rfl hne
    · rw [List.count_cons_of_ne (by decide), List.count_cons_self] at hcount
      exact ⟨start, hstart, hcount⟩
  · rintro ⟨start, hstart, hcount⟩
    refine ⟨'(' :: start, List.cons_ne_nil _ _, (List.prefix_cons_inj _).mpr hstart, ?_⟩
    rw [List.count_cons_of_ne (by decide), List.count_cons_self]
    exact hcount

/-- While the parentheses of a query are counted, none is closed that is not open. What is left of
the query is the text before its first parenthesis exactly if a group starts there, and the query
itself otherwise. There is nothing to be dropped from what is left. -/
theorem dropParameters_eq_iff_and_idempotent (query : List Char) :
    closing 0 (query.dropWhile (· != '(')) ≠ .stray ∧
      ('(' ∉ query → dropParameters query = query) ∧
      (∀ before after, query = before ++ '(' :: after → '(' ∉ before →
        (dropParameters query = before ↔ OpensGroup ('(' :: after)) ∧
        (¬ OpensGroup ('(' :: after) → dropParameters query = query)) ∧
      dropParameters (dropParameters query) = dropParameters query := by
  refine ⟨closing_dropWhile_ne_stray query, dropParameters_of_not_mem, ?_, ?_⟩
  · rintro before after rfl hbefore
    rw [opensGroup_iff]
    refine ⟨⟨fun heq => ?_, dropParameters_of_closes hbefore⟩, dropParameters_of_not_closes hbefore⟩
    by_contra hnot
    rw [dropParameters_of_not_closes hbefore hnot, List.append_right_eq_self] at heq
    cases heq
  · obtain hnone | heq := not_mem_or_dropParameters_eq query
    · exact dropParameters_of_not_mem hnone
    · rw [heq, heq]

/-- The group of a parameter list ends with the parenthesis that closes its first one. -/
theorem dropParameters_eq_iff_and_idempotent_nested :
    OpensGroup ['(', '(', ')', ')', '('] ∧
      dropParameters ['f', '(', '(', ')', ')', '('] = ['f'] := by
  have hgroup : OpensGroup ['(', '(', ')', ')', '('] :=
    ⟨['(', '(', ')', ')'], by decide, by decide, by decide⟩
  have hdrop := (dropParameters_eq_iff_and_idempotent ['f', '(', '(', ')', ')', '(']).2.2.1
    ['f'] ['(', ')', ')', '('] rfl (by decide)
  exact ⟨hgroup, hdrop.1.mpr hgroup⟩

end SymbolSearch.Query
