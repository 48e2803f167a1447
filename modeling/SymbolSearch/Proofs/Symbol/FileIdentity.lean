import SymbolSearch.Proofs.Symbol.Chain
import SymbolSearch.Proofs.Symbol.FilePath

/-!
# The file of a symbol and its chain

Symbols of one file differ in their chains, and mostly have the same file path. But the search for
the file path does not know where the chain starts, and a quoted segment of the chain may be taken
for the name of the file. This happens exactly if the segment that decides does not end before the
slash in front of the chain. Such a segment follows that slash itself, or a slash inside backticks.

## Main results

* `Descriptor.filePathOf_append_eq_iff` — when the start of a text decides its file path
* `Descriptor.Candidate.mem_chain_of_splitsAt` — which slashes can have a segment behind them that
  ends in the chain
* `Descriptor.filePathOf_eq_before_chain_iff` — when the chain has no part in the file path
* `Descriptor.not_forall_filePathOf_eq_before_chain` — it may have one
-/

namespace SymbolSearch.Descriptor

variable {s t symbol head before chain last left left' content content' : List Char}

/-! ### Quoted segments at the start of a text -/

theorem Quotes.append (h : Quotes s content) (t : List Char) : Quotes (s ++ t) content := by
  obtain ⟨opening, closing, hsegment⟩ := h.starts
  exact ⟨h.ne_nil, h.plain, opening, closing, hsegment.trans (List.prefix_append s t)⟩

/-- A quoted segment without its last backtick has one backtick. -/
theorem exists_segment_eq_concat (h : ∀ c ∈ content, c ≠ '\x60' ∧ c ≠ '\\')
    (opening closing : Nat) :
    ∃ u, segment opening content closing = u ++ ['\x60'] ∧ u.count '\x60' = 1 := by
  have hcontent : content.count '\x60' = 0 :=
    List.count_eq_zero_of_not_mem fun hmem => (h _ hmem).1 rfl
  refine ⟨List.replicate opening '\\' ++ '\x60' :: (content ++ List.replicate closing '\\'), ?_, ?_⟩
  · simp [segment]
  · simp [List.count_replicate, hcontent]

theorem Quotes.two_le_count (h : Quotes s content) : 2 ≤ s.count '\x60' := by
  obtain ⟨opening, closing, hsegment⟩ := h.starts
  obtain ⟨u, hu, hcount⟩ := exists_segment_eq_concat h.plain opening closing
  have hle := hsegment.sublist.count_le '\x60'
  rwa [hu, List.count_append, hcount] at hle

/-- A quoted segment ends with its second backtick, so it lies in every start of the text that has
two of them. -/
theorem Quotes.of_isPrefix (h : Quotes t content) (hs : s <+: t) (hcount : 2 ≤ s.count '\x60') :
    Quotes s content := by
  obtain ⟨opening, closing, hsegment⟩ := h.starts
  refine ⟨h.ne_nil, h.plain, opening, closing, ?_⟩
  apply List.prefix_of_prefix_length_le hsegment hs
  by_contra hlt
  obtain ⟨u, hu, hone⟩ := exists_segment_eq_concat h.plain opening closing
  rw [hu] at hsegment hlt
  rw [List.length_append, List.length_singleton] at hlt
  have hshort : s <+: u :=
    List.prefix_of_prefix_length_le hs ((List.prefix_append u _).trans hsegment) (by omega)
  have hle := hshort.sublist.count_le '\x60'
  omega

/-- A quoted segment starts with a backslash or a backtick. -/
theorem Quotes.head?_eq (h : Quotes s content) : s.head? = some '\\' ∨ s.head? = some '\x60' := by
  obtain ⟨opening, closing, rest, rfl⟩ := h.starts
  cases opening with
  | zero => exact .inr rfl
  | succ n => exact .inl rfl

/-! ### Candidates at the start of a text -/

theorem Candidate.append (h : Candidate head left content) (tail : List Char) :
    Candidate (head ++ tail) left content := by
  obtain ⟨right, rfl, hquotes⟩ := h.quotes
  exact ⟨h.follows, right ++ tail, by simp, hquotes.append tail⟩

theorem Candidate.exists_eq_append_of_lt (h : Candidate symbol left content) (hs : s <+: symbol)
    (hlt : left.length < s.length) : ∃ middle, s = left ++ '/' :: middle := by
  obtain ⟨middle, rfl⟩ : left ++ ['/'] <+: s :=
    List.prefix_of_prefix_length_le h.slash_isPrefix hs (by simpa [Nat.succ_le_iff] using hlt)
  exact ⟨middle, by simp⟩

/-- A candidate of a text is one of its start if the start has a candidate further right, whose
segment has two backticks that come later. -/
theorem Candidate.of_append_of_lt {tail : List Char} (h : Candidate (head ++ tail) left content)
    (h' : Candidate head left' content') (hlt : left.length < left'.length) :
    Candidate head left content := by
  obtain ⟨middle, rfl⟩ := h.exists_eq_append_of_lt (h'.append tail).isPrefix hlt
  obtain ⟨right', rfl, hquotes'⟩ := h'.quotes
  obtain ⟨right, heq, hquotes⟩ := h.quotes
  have hright : right = middle ++ '/' :: right' ++ tail := by
    simpa using heq.symm
  refine ⟨h.follows, middle ++ '/' :: right', by simp, ?_⟩
  apply hquotes.of_isPrefix ⟨tail, hright.symm⟩
  have htwo := hquotes'.two_le_count
  rw [List.count_append, List.count_cons_of_ne (by decide)]
  omega

/-- Between two places of one run there are only places of this run. -/
theorem runStart_eq_of_isPrefix {first middle : List Char} (hfirst : first <+: middle)
    (hlast : middle <+: last) (hrun : runStart last = runStart first) :
    runStart middle = runStart last := by
  apply (runStart_mono hlast).eq_of_length
  apply Nat.le_antisymm (runStart_mono hlast).length_le
  rw [hrun]
  exact (runStart_mono hfirst).length_le

/-- Two candidates of one run give different paths: behind the first slash, one path goes on with
the content of its segment and the other with the backslash or the backtick that starts it. -/
theorem Candidate.path_ne_of_lt (h : Candidate symbol left content)
    (h' : Candidate symbol left' content') (hrun : runStart left = runStart left')
    (hlt : left.length < left'.length) :
    lastRun left ++ '/' :: content ≠ lastRun left' ++ '/' :: content' := by
  intro hpath
  have hwhole : left ++ '/' :: content = left' ++ '/' :: content' := by
    rw [← runStart_append_lastRun left, ← runStart_append_lastRun left', List.append_assoc,
      List.append_assoc, hpath, hrun]
  obtain ⟨middle, rfl⟩ := h.exists_eq_append_of_lt h'.isPrefix hlt
  obtain ⟨right, rfl, hquotes⟩ := h.quotes
  obtain ⟨right', heq, -⟩ := h'.quotes
  have hcontent : content = middle ++ '/' :: content' := by simpa using hwhole
  have hright : right = middle ++ '/' :: right' := by simpa using heq
  have hhead : content.head? = right.head? := by
    rw [hcontent, hright]
    cases middle <;> rfl
  rcases hquotes.head?_eq with hstart | hstart
  · exact (hquotes.plain _ (List.mem_of_head? (hhead.trans hstart))).2 rfl
  · exact (hquotes.plain _ (List.mem_of_head? (hhead.trans hstart))).1 rfl

/-! ### The file path of a start -/

/-- The candidate that decides in a text decides in a start of it, if it is a candidate there. -/
theorem IsChosen.of_append {tail : List Char} (h : IsChosen (head ++ tail) last content)
    (hlast : Candidate head last content) : IsChosen head last content := by
  obtain ⟨first, hfirst, hrun⟩ := h.first_run
  obtain ⟨c, hc⟩ := hfirst.candidate
  obtain ⟨first', hfirst'⟩ := hlast.exists_isLeftmost
  obtain ⟨c', hc'⟩ := hfirst'.candidate
  refine ⟨hlast, ⟨first', hfirst', ?_⟩, fun left content' hleft hsame => ?_⟩
  · -- The leftmost candidate of the start stands between that of the text and the chosen one.
    have hafter : first <+: first' :=
      List.prefix_of_prefix_length_le hc.isPrefix (hc'.append tail).isPrefix
        (hfirst.le _ _ (hc'.append tail))
    have hbefore : first' <+: last :=
      List.prefix_of_prefix_length_le hc'.isPrefix hlast.isPrefix (hfirst'.le _ _ hlast)
    exact (runStart_eq_of_isPrefix hafter hbefore hrun).symm
  · exact h.rightmost left content' (hleft.append tail) hsame

theorem IsChosen.filePathOf_eq (h : IsChosen symbol last content) :
    filePathOf symbol = lastRun last ++ '/' :: content :=
  (isFilePath_filePathOf symbol).unique (.inl ⟨last, content, h, rfl⟩)

/-- If a text and its start have the same file path, the segment that decides ends in the start. -/
theorem IsChosen.candidate_of_filePathOf_eq {tail : List Char}
    (h : IsChosen (head ++ tail) last content)
    (heq : filePathOf (head ++ tail) = filePathOf head) : Candidate head last content := by
  rw [h.filePathOf_eq] at heq
  rcases isFilePath_filePathOf head with ⟨last', content', h', hpath⟩ | ⟨hpath, -⟩
  · have hlast' := h'.candidate.append tail
    rcases Nat.lt_trichotomy last.length last'.length with hlt | hlength | hlt
    · exact h.candidate.of_append_of_lt h'.candidate hlt
    · obtain rfl := h.candidate.eq_of_length_eq hlast'.isPrefix hlength
      rw [h.candidate.content_unique hlast']
      exact h'.candidate
    · -- Left of the chosen candidate, the other one stands in the same run.
      obtain ⟨first, hfirst, hrun⟩ := h.first_run
      obtain ⟨c, hc⟩ := hfirst.candidate
      have hafter : first <+: last' :=
        List.prefix_of_prefix_length_le hc.isPrefix hlast'.isPrefix (hfirst.le _ _ hlast')
      have hbefore : last' <+: last :=
        List.prefix_of_prefix_length_le hlast'.isPrefix h.candidate.isPrefix hlt.le
      have hsame := runStart_eq_of_isPrefix hafter hbefore hrun
      exact absurd (hpath.symm.trans heq.symm) (hlast'.path_ne_of_lt h.candidate hsame hlt)
  · rw [hpath] at heq
    simp at heq

/-- What follows a text does not matter for its file path exactly if the segment that decides ends
in the text. -/
theorem filePathOf_append_eq_iff (head tail : List Char) :
    filePathOf (head ++ tail) = filePathOf head ↔
      ∀ last content, IsChosen (head ++ tail) last content → Candidate head last content := by
  constructor
  · intro heq last content h
    exact h.candidate_of_filePathOf_eq heq
  · intro hall
    apply IsFilePath.unique _ (isFilePath_filePathOf head)
    rcases isFilePath_filePathOf (head ++ tail) with ⟨last, content, h, hpath⟩ | ⟨hpath, hnone⟩
    · exact .inl ⟨last, content, h.of_append (hall last content h), hpath⟩
    · exact .inr ⟨hpath, fun left content hleft => hnone left content (hleft.append tail)⟩

/-! ### The chain -/

/-- A quoted segment that opens in a text and ends behind the slash after it has its first backtick
in the text, and no other. -/
theorem Quotes.count_eq_one (h : Quotes (s ++ '/' :: t) content)
    (hnot : ¬ Quotes (s ++ ['/']) content) : s.count '\x60' = 1 := by
  have hsplit : s ++ '/' :: t = s ++ ['/'] ++ t := List.append_cons s '/' t
  have hslash : (s ++ ['/']).count '\x60' = s.count '\x60' := by simp
  have hlt : s.count '\x60' < 2 := by
    by_contra hle
    apply hnot
    exact h.of_isPrefix ⟨t, hsplit.symm⟩ (by omega)
  have hpos : s.count '\x60' ≠ 0 := by
    intro hzero
    have hnone : quotedSegment? (s ++ ['/'] ++ t) = none :=
      quotedSegment?_append_eq_none t (by simpa using List.count_eq_zero.mp hzero)
        ⟨'/', by simp, by decide⟩
    rw [← hsplit, quotedSegment?_eq_some_iff.mpr h] at hnone
    exact Option.some_ne_none _ hnone
  omega

/-- A candidate stands before the slash in front of the chain, is this slash, or stands in the
chain. -/
theorem Candidate.cases_of_splitsAt (h : Candidate symbol left content)
    (hsplit : SplitsAt symbol before chain) :
    (∃ middle, before = left ++ '/' :: middle ∧ Quotes (middle ++ '/' :: chain) content) ∨
      (left = before ∧ Quotes chain content) ∨
      ∃ middle right, left = before ++ '/' :: middle ∧ chain = middle ++ '/' :: right ∧
        Quotes right content := by
  have hslash : before ++ ['/'] <+: symbol := ⟨chain, by rw [hsplit.eq, ← List.append_cons]⟩
  have hbefore : before <+: symbol := (List.prefix_append before ['/']).trans hslash
  obtain ⟨right, heq, hquotes⟩ := h.quotes
  rw [hsplit.eq] at heq
  rcases Nat.lt_trichotomy left.length before.length with hlt | hlength | hlt
  · obtain ⟨middle, rfl⟩ := h.exists_eq_append_of_lt hbefore hlt
    have hright : right = middle ++ '/' :: chain := by simpa using heq.symm
    exact .inl ⟨middle, rfl, hright ▸ hquotes⟩
  · obtain rfl := h.eq_of_length_eq hbefore hlength
    have hright : right = chain := by simpa using heq.symm
    exact .inr (.inl ⟨rfl, hright ▸ hquotes⟩)
  · obtain ⟨middle, rfl⟩ : before ++ ['/'] <+: left :=
      List.prefix_of_prefix_length_le hslash h.isPrefix (by simpa [Nat.succ_le_iff] using hlt)
    have hchain : chain = middle ++ '/' :: right := by simpa using heq
    exact .inr (.inr ⟨middle, right, (List.append_cons before '/' middle).symm, hchain, hquotes⟩)

/-- A candidate whose segment does not end before the chain has a backtick of the chain behind it,
and it is the slash in front of the chain or stands inside backticks. -/
theorem Candidate.mem_chain_of_splitsAt (h : Candidate symbol left content)
    (hsplit : SplitsAt symbol before chain) (hnot : ¬ Candidate (before ++ ['/']) left content) :
    '\x60' ∈ chain ∧ (left = before ∨ Odd (left.count '\x60')) := by
  rw [← List.count_pos_iff]
  have heven := hsplit.even
  rcases h.cases_of_splitsAt hsplit with
    ⟨middle, rfl, hquotes⟩ | ⟨rfl, hquotes⟩ | ⟨middle, right, rfl, rfl, hquotes⟩
  · -- One backtick stands between the candidate and the chain, and before the chain an even number.
    have hone : middle.count '\x60' = 1 := by
      apply hquotes.count_eq_one
      intro hends
      exact hnot ⟨h.follows, middle ++ ['/'], by simp, hends⟩
    have htwo := hquotes.two_le_count
    rw [List.count_append, List.count_cons_of_ne (by decide), hone] at htwo heven
    rw [Nat.even_add_one, Nat.not_even_iff_odd] at heven
    exact ⟨by omega, .inr heven⟩
  · have htwo := hquotes.two_le_count
    exact ⟨by omega, .inl rfl⟩
  · -- A slash of the chain has an odd number of backticks before it in the chain.
    have htwo := hquotes.two_le_count
    have hodd : Odd (middle.count '\x60') := hsplit.enclosed middle '/' right rfl (by decide)
    rw [List.count_append, List.count_cons_of_ne (by decide), List.count_append,
      List.count_cons_of_ne (by decide)]
    exact ⟨by omega, .inr (heven.add_odd hodd)⟩

/-- A symbol with a chain has the file path of what stands before the chain exactly if the segment
that decides ends there. Only a chain with backticks allows for other candidates, and these are the
slash in front of the chain and slashes inside backticks. -/
theorem filePathOf_eq_before_chain_iff {symbol : List Char} (h : chainOf symbol ≠ []) :
    ∃ before, symbol = before ++ '/' :: chainOf symbol ∧
      (filePathOf symbol = filePathOf (before ++ ['/']) ↔
        ∀ last content, IsChosen symbol last content → Candidate (before ++ ['/']) last content) ∧
      ∀ left content, Candidate symbol left content → ¬ Candidate (before ++ ['/']) left content →
        '\x60' ∈ chainOf symbol ∧ (left = before ∨ Odd (left.count '\x60')) := by
  obtain ⟨before, hsplit⟩ := exists_splitsAt_of_chainOf_ne_nil h
  have hiff := filePathOf_append_eq_iff (before ++ ['/']) (chainOf symbol)
  rw [← List.append_cons, ← hsplit.eq] at hiff
  refine ⟨before, hsplit.eq, hiff, fun left content hleft hnot => ?_⟩
  exact hleft.mem_chain_of_splitsAt hsplit hnot

/-- A type whose name is quoted, in a file whose name is quoted. -/
def quotedMember : List Char := "scip npm app 1.0 src/\x60a.ts\x60/\x60b c\x60#".toList

theorem filePathOf_eq_before_chain_iff_quotedMember :
    chainOf quotedMember ≠ [] ∧
      ∃ before, quotedMember = before ++ '/' :: chainOf quotedMember ∧
        (filePathOf quotedMember = filePathOf (before ++ ['/']) ↔
          ∀ last content, IsChosen quotedMember last content →
            Candidate (before ++ ['/']) last content) ∧
        ∀ left content, Candidate quotedMember left content →
          ¬ Candidate (before ++ ['/']) left content →
            '\x60' ∈ chainOf quotedMember ∧ (left = before ∨ Odd (left.count '\x60')) :=
  ⟨by decide, filePathOf_eq_before_chain_iff (by decide)⟩

/-- The quoted name of a type is taken for the name of its file. -/
theorem not_forall_filePathOf_eq_before_chain :
    ¬ ∀ symbol before : List Char, chainOf symbol ≠ [] → symbol = before ++ '/' :: chainOf symbol →
      filePathOf symbol = filePathOf (before ++ ['/']) := by
  intro hall
  have heq := hall quotedMember "scip npm app 1.0 src/\x60a.ts\x60".toList (by decide) (by decide)
  exact absurd heq (by decide)

end SymbolSearch.Descriptor
