import Mathlib.Data.List.DropRight
import Mathlib.Data.List.TakeWhile
import Mathlib.Order.WellFounded
import SymbolSearch.Proofs.Symbol.Scan

/-!
# Which quoted segment names the file

A slash inside a run of characters without blanks can end the directory of a file if a quoted
segment stands behind it. Of all such slashes, the run of the leftmost one decides, and in this run
the rightmost one: the file path is the run up to that slash and the content of the segment behind
it. The segment itself may reach over blanks and further slashes.

## Main definitions

* `Descriptor.Quotes` — a text starts with a quoted segment
* `Descriptor.runStart`, `Descriptor.lastRun` — a text cut before its last run without blanks
* `Descriptor.Candidate` — a slash with a quoted segment behind it
* `Descriptor.IsChosen` — the slash that decides
* `Descriptor.IsFilePath` — the file path by this rule

## Main results

* `Descriptor.quotedSegment?_eq_some_iff` — what is recognised as a quoted segment
* `Descriptor.IsChosen.unique` — at most one slash decides
* `Descriptor.filePathOf_eq_iff` — the search follows the rule
-/

namespace SymbolSearch.Descriptor

variable {s t symbol read left left' content content' : List Char}

/-! ### Quoted segments -/

/-- A content between backticks, with backslashes before each of them. -/
def segment (opening : Nat) (content : List Char) (closing : Nat) : List Char :=
  List.replicate opening '\\' ++ '\x60' :: (content ++ (List.replicate closing '\\' ++ ['\x60']))

/-- A text starts with a quoted segment, whose content is not empty and has neither backticks nor
backslashes. -/
structure Quotes (s content : List Char) : Prop where
  ne_nil : content ≠ []
  plain : ∀ c ∈ content, c ≠ '\x60' ∧ c ≠ '\\'
  starts : ∃ opening closing, segment opening content closing <+: s

theorem endsSegment_eq_false_iff {c : Char} : endsSegment c = false ↔ c ≠ '\x60' ∧ c ≠ '\\' := by
  rw [endsSegment, Bool.or_eq_false_iff, beq_eq_false_iff_ne, beq_eq_false_iff_ne]

theorem exists_backslashes_append (s : List Char) :
    ∃ n, List.replicate n '\\' ++ s.dropWhile (· == '\\') = s := by
  have hall : s.takeWhile (· == '\\') = List.replicate (s.takeWhile (· == '\\')).length '\\' := by
    refine List.eq_replicate_iff.mpr ⟨rfl, fun c hc => ?_⟩
    simpa using List.mem_takeWhile_imp hc
  exact ⟨_, by rw [← hall, List.takeWhile_append_dropWhile]⟩

theorem quotes_of_quotedSegment? (h : quotedSegment? s = some content) : Quotes s content := by
  obtain ⟨opening, hopening⟩ := exists_backslashes_append s
  unfold quotedSegment? at h
  split at h
  · next body hbody =>
    simp only at h
    obtain ⟨closing, hclosing⟩ :=
      exists_backslashes_append (body.dropWhile fun c => !endsSegment c)
    split at h
    · next rest hrest =>
      split_ifs at h with hempty
      obtain rfl := Option.some.inj h
      have hcontent : body.takeWhile (fun c => !endsSegment c) ++
          (List.replicate closing '\\' ++ '\x60' :: rest) = body := by
        rw [← hrest, hclosing, List.takeWhile_append_dropWhile]
      refine ⟨by simpa using hempty, fun c hc => ?_, opening, closing, rest, ?_⟩
      · exact endsSegment_eq_false_iff.mp (by simpa using List.mem_takeWhile_imp hc)
      · rw [← hopening, hbody, ← hcontent]
        simp [segment, hcontent]
    · simp at h
  · simp at h

/-- A quoted segment is recognised, with its content. -/
theorem quotedSegment?_eq_some_iff : quotedSegment? s = some content ↔ Quotes s content := by
  refine ⟨quotes_of_quotedSegment?, fun h => ?_⟩
  obtain ⟨opening, closing, rest, rfl⟩ := h.starts
  have hsegment := quotedSegment?_quoted opening closing rest h.ne_nil
    fun c hc => endsSegment_eq_false_iff.mpr (h.plain c hc)
  simpa [segment] using hsegment

/-! ### Runs without blanks -/

/-- The run without blanks at the end of a text. -/
def lastRun (s : List Char) : List Char := s.rtakeWhile fun c => !Text.isBlank c

/-- What stands before the run without blanks at the end of a text. -/
def runStart (s : List Char) : List Char := s.rdropWhile fun c => !Text.isBlank c

theorem runStart_append_lastRun (s : List Char) : runStart s ++ lastRun s = s :=
  List.rdropWhile_append_rtakeWhile

theorem runStart_isPrefix (s : List Char) : runStart s <+: s := List.rdropWhile_prefix _ s

theorem lastRun_concat {c : Char} (h : Text.isBlank c = false) (s : List Char) :
    lastRun (s ++ [c]) = lastRun s ++ [c] :=
  List.rtakeWhile_concat_pos _ _ _ (by simp [h])

theorem lastRun_concat_blank {c : Char} (h : Text.isBlank c = true) (s : List Char) :
    lastRun (s ++ [c]) = [] :=
  List.rtakeWhile_concat_neg _ _ _ (by simp [h])

theorem runStart_concat {c : Char} (h : Text.isBlank c = false) (s : List Char) :
    runStart (s ++ [c]) = runStart s :=
  List.rdropWhile_concat_pos _ _ _ (by simp [h])

theorem runStart_concat_blank {c : Char} (h : Text.isBlank c = true) (s : List Char) :
    runStart (s ++ [c]) = s ++ [c] :=
  List.rdropWhile_concat_neg _ _ _ (by simp [h])

/-- The last run of a longer text does not start before that of a shorter one. -/
theorem runStart_mono (h : s <+: t) : runStart s <+: runStart t := by
  obtain ⟨u, rfl⟩ := h
  induction u using List.reverseRecOn with
  | nil => simp
  | append_singleton u c ih =>
    rw [← List.append_assoc]
    cases hblank : Text.isBlank c with
    | false => rwa [runStart_concat hblank]
    | true =>
      rw [runStart_concat_blank hblank, List.append_assoc]
      exact (runStart_isPrefix s).trans (List.prefix_append s (u ++ [c]))

theorem lastRun_ne_nil_iff : lastRun s ≠ [] ↔ ∃ c ∈ s.getLast?, Text.isBlank c = false := by
  rcases List.eq_nil_or_concat s with rfl | ⟨s, c, rfl⟩
  · simp [lastRun]
  · rw [List.concat_eq_append]
    cases hblank : Text.isBlank c with
    | false => simp [lastRun_concat hblank, hblank]
    | true => simp [lastRun_concat_blank hblank, hblank]

/-! ### Slashes that can end a directory -/

/-- The slash behind `left` can end the directory of a file: a character other than a blank stands
before it, and a quoted segment behind it. -/
structure Candidate (symbol left content : List Char) : Prop where
  follows : ∃ c ∈ left.getLast?, Text.isBlank c = false
  quotes : ∃ right, symbol = left ++ '/' :: right ∧ Quotes right content

theorem Candidate.slash_isPrefix (h : Candidate symbol left content) :
    left ++ ['/'] <+: symbol := by
  obtain ⟨right, rfl, -⟩ := h.quotes
  exact ⟨right, by simp⟩

theorem Candidate.isPrefix (h : Candidate symbol left content) : left <+: symbol :=
  (List.prefix_append left ['/']).trans h.slash_isPrefix

theorem Candidate.length_lt (h : Candidate symbol left content) : left.length < symbol.length := by
  simpa [Nat.succ_le_iff] using h.slash_isPrefix.length_le

/-- Candidates are told apart by their places. -/
theorem Candidate.eq_of_length_eq (h : Candidate symbol left content) (hread : read <+: symbol)
    (hlength : left.length = read.length) : left = read :=
  (List.prefix_of_prefix_length_le h.isPrefix hread hlength.le).eq_of_length hlength

theorem candidate_append_iff {rest : List Char} : Candidate (read ++ '/' :: rest) read content ↔
    lastRun read ≠ [] ∧ quotedSegment? rest = some content := by
  rw [lastRun_ne_nil_iff, quotedSegment?_eq_some_iff]
  constructor
  · intro h
    obtain ⟨right, heq, hquotes⟩ := h.quotes
    rw [List.append_cancel_left_eq, List.cons.injEq] at heq
    exact ⟨h.follows, heq.2 ▸ hquotes⟩
  · rintro ⟨hfollows, hquotes⟩
    exact ⟨hfollows, rest, rfl, hquotes⟩

theorem Candidate.content_unique (h : Candidate symbol left content)
    (h' : Candidate symbol left content') : content = content' := by
  obtain ⟨right, rfl, -⟩ := h.quotes
  rw [candidate_append_iff] at h h'
  exact Option.some.inj (h.2.symm.trans h'.2)

/-- No candidate stands left of this one. -/
structure IsLeftmost (symbol first : List Char) : Prop where
  candidate : ∃ content, Candidate symbol first content
  le : ∀ left content, Candidate symbol left content → first.length ≤ left.length

theorem Candidate.exists_isLeftmost (h : Candidate symbol left content) :
    ∃ first, IsLeftmost symbol first := by
  obtain ⟨first, hfirst, hmin⟩ := (measure List.length).wf.has_min
    {left | ∃ content, Candidate symbol left content} ⟨left, content, h⟩
  exact ⟨first, hfirst, fun left content h => Nat.not_lt.mp (hmin left ⟨content, h⟩)⟩

/-- The candidate that decides: it stands in the run of the leftmost candidate, and no candidate of
this run stands right of it. -/
structure IsChosen (symbol last content : List Char) : Prop where
  candidate : Candidate symbol last content
  first_run : ∃ first, IsLeftmost symbol first ∧ runStart last = runStart first
  rightmost : ∀ left content, Candidate symbol left content → runStart left = runStart last →
    left.length ≤ last.length

/-- The file path of a symbol: the run up to the slash that decides and the content behind it, or
nothing if there is no candidate. -/
def IsFilePath (symbol path : List Char) : Prop :=
  (∃ last content, IsChosen symbol last content ∧ path = lastRun last ++ '/' :: content) ∨
    (path = [] ∧ ∀ left content, ¬ Candidate symbol left content)

theorem IsChosen.unique {last last' : List Char} (h : IsChosen symbol last content)
    (h' : IsChosen symbol last' content') : last = last' ∧ content = content' := by
  obtain ⟨first, hfirst, hrun⟩ := h.first_run
  obtain ⟨first', hfirst', hrun'⟩ := h'.first_run
  obtain ⟨c, hc⟩ := hfirst.candidate
  obtain ⟨c', hc'⟩ := hfirst'.candidate
  have hsame : first = first' :=
    hc.eq_of_length_eq hc'.isPrefix (Nat.le_antisymm (hfirst.le _ _ hc') (hfirst'.le _ _ hc))
  have hruns : runStart last = runStart last' := by rw [hrun, hsame, hrun']
  have hlast : last = last' :=
    h.candidate.eq_of_length_eq h'.candidate.isPrefix
      (Nat.le_antisymm (h'.rightmost _ _ h.candidate hruns)
        (h.rightmost _ _ h'.candidate hruns.symm))
  subst hlast
  exact ⟨rfl, h.candidate.content_unique h'.candidate⟩

theorem IsFilePath.unique {path path' : List Char} (h : IsFilePath symbol path)
    (h' : IsFilePath symbol path') : path = path' := by
  rcases h with ⟨last, content, hchosen, rfl⟩ | ⟨rfl, hnone⟩
  · rcases h' with ⟨last', content', hchosen', rfl⟩ | ⟨-, hnone⟩
    · obtain ⟨rfl, rfl⟩ := hchosen.unique hchosen'
      rfl
    · exact absurd hchosen.candidate (hnone _ _)
  · rcases h' with ⟨last', content', hchosen', -⟩ | ⟨rfl, -⟩
    · exact absurd hchosen'.candidate (hnone _ _)
    · rfl

/-! ### The search -/

/-- The search has read a part of the symbol. Without a path it has met no candidate; with one, all
candidates it has met stand in the run it is in, and the path is that of the last of them. -/
def Reached (symbol read : List Char) : Option (List Char) → Prop
  | none => ∀ left content, Candidate symbol left content → read.length ≤ left.length
  | some path => ∃ last content, Candidate symbol last content ∧
      path = lastRun last ++ '/' :: content ∧ last.length < read.length ∧
      ∀ left content, Candidate symbol left content → left.length < read.length →
        left.length ≤ last.length ∧ runStart left = runStart read

theorem Candidate.next_eq {c : Char} (h : Candidate symbol read content)
    (hread : read ++ [c] <+: symbol) : c = '/' := by
  have hslash : read ++ [c] = read ++ ['/'] :=
    (List.prefix_of_prefix_length_le hread h.slash_isPrefix (by simp)).eq_of_length (by simp)
  simpa using hslash

/-- A place that is no candidate is passed over while there is no path. -/
theorem Reached.skip_of_none (h : Reached symbol read none) (hread : read <+: symbol)
    (hnone : ∀ content, ¬ Candidate symbol read content) (c : Char) :
    Reached symbol (read ++ [c]) none := by
  intro left content hleft
  have hle : read.length ≤ left.length := h left content hleft
  have hne : left.length ≠ read.length := fun hlength =>
    hnone content (hleft.eq_of_length_eq hread hlength ▸ hleft)
  rw [List.length_append, List.length_singleton]
  omega

/-- Inside a run it is passed over in any case. -/
theorem Reached.skip {c : Char} {best : Option (List Char)} (h : Reached symbol read best)
    (hread : read <+: symbol) (hnone : ∀ content, ¬ Candidate symbol read content)
    (hblank : Text.isBlank c = false) : Reached symbol (read ++ [c]) best := by
  cases best with
  | none => exact h.skip_of_none hread hnone c
  | some path =>
    obtain ⟨last, content, hlast, hpath, hlt, hall⟩ := h
    refine ⟨last, content, hlast, hpath, ?_, fun left content hleft hle => ?_⟩
    · rw [List.length_append, List.length_singleton]
      omega
    · have hne : left.length ≠ read.length := fun hlength =>
        hnone content (hleft.eq_of_length_eq hread hlength ▸ hleft)
      rw [List.length_append, List.length_singleton] at hle
      rw [runStart_concat hblank]
      exact hall left content hleft (by omega)

/-- A candidate takes the place of the one before it, which stands in the same run. -/
theorem Reached.take {best : Option (List Char)} (h : Reached symbol read best)
    (hcandidate : Candidate symbol read content) :
    Reached symbol (read ++ ['/']) (some (lastRun read ++ '/' :: content)) := by
  refine ⟨read, content, hcandidate, rfl, by simp, fun left content' hleft hlt => ?_⟩
  rw [List.length_append, List.length_singleton, Nat.lt_succ_iff] at hlt
  refine ⟨hlt, ?_⟩
  rw [runStart_concat (by decide)]
  rcases hlt.eq_or_lt with hlength | hlt
  · rw [hleft.eq_of_length_eq hcandidate.isPrefix hlength]
  · cases best with
    | none => exact absurd (h left content' hleft) (Nat.not_le.mpr hlt)
    | some path =>
      obtain ⟨last, _, _, _, _, hall⟩ := h
      exact (hall left content' hleft hlt).2

/-- The path is final once no candidate of the run can follow. -/
theorem Reached.isFilePath {path : List Char} (h : Reached symbol read (some path))
    (hend : ∀ left content, Candidate symbol left content → runStart left = runStart read →
      left.length < read.length) : IsFilePath symbol path := by
  obtain ⟨last, content, hlast, rfl, hlt, hall⟩ := h
  obtain ⟨first, hfirst⟩ := hlast.exists_isLeftmost
  obtain ⟨c, hc⟩ := hfirst.candidate
  have hfirstLast : first.length ≤ last.length := hfirst.le last content hlast
  have hrunLast : runStart last = runStart read := (hall last content hlast hlt).2
  have hrunFirst : runStart first = runStart read := (hall first c hc (by omega)).2
  refine .inl ⟨last, content, ⟨hlast, ⟨first, hfirst, hrunLast.trans hrunFirst.symm⟩, ?_⟩, rfl⟩
  intro left content' hleft hrun
  exact (hall left content' hleft (hend left content' hleft (hrun.trans hrunLast))).1

/-- A blank ends the run, so that a candidate behind it stands in another one. -/
theorem Reached.isFilePath_of_blank {c : Char} {path : List Char}
    (h : Reached symbol read (some path)) (hread : read ++ [c] <+: symbol)
    (hblank : Text.isBlank c = true) : IsFilePath symbol path := by
  apply h.isFilePath
  intro left content hleft hrun
  by_contra hlt
  have hplace : left.length ≠ read.length := by
    intro hlength
    obtain rfl := hleft.eq_of_length_eq ((List.prefix_append read [c]).trans hread) hlength
    rw [hleft.next_eq hread] at hblank
    exact absurd hblank (by decide)
  have hbehind : read ++ [c] <+: left :=
    List.prefix_of_prefix_length_le hread hleft.isPrefix (by simp; omega)
  have hstart := (runStart_mono hbehind).length_le
  have hrunRead := (runStart_isPrefix read).length_le
  rw [runStart_concat_blank hblank, hrun, List.length_append, List.length_singleton] at hstart
  omega

theorem Reached.isFilePath_of_end {best : Option (List Char)} (h : Reached symbol symbol best) :
    IsFilePath symbol (best.getD []) := by
  cases best with
  | none =>
    refine .inr ⟨rfl, fun left content hleft => ?_⟩
    exact absurd (h left content hleft) (Nat.not_le.mpr hleft.length_lt)
  | some path => exact h.isFilePath fun left content hleft _ => hleft.length_lt

/-- The search ends with the file path. The run is kept in reverse. -/
theorem isFilePath_filePathFrom (read rest : List Char) (best : Option (List Char))
    (h : Reached (read ++ rest) read best) :
    IsFilePath (read ++ rest) (filePathFrom (lastRun read).reverse best rest) := by
  induction rest generalizing read best with
  | nil =>
    rw [List.append_nil] at h ⊢
    exact h.isFilePath_of_end
  | cons c rest ih =>
    have hread : read ++ [c] <+: read ++ c :: rest := ⟨rest, by simp⟩
    have hpart : read <+: read ++ c :: rest := List.prefix_append read (c :: rest)
    have hstep := ih (read ++ [c])
    rw [← List.append_cons] at hstep
    cases hblank : Text.isBlank c with
    | true =>
      cases best with
      | some path =>
        rw [filePathFrom, if_pos hblank]
        exact h.isFilePath_of_blank hread hblank
      | none =>
        have hnone : ∀ content, ¬ Candidate (read ++ c :: rest) read content := by
          intro content hcandidate
          rw [hcandidate.next_eq hread] at hblank
          exact absurd hblank (by decide)
        rw [lastRun_concat_blank hblank] at hstep
        rw [filePathFrom, if_pos hblank]
        exact hstep none (h.skip_of_none hpart hnone c)
    | false =>
      have hrun : (lastRun (read ++ [c])).reverse = c :: (lastRun read).reverse := by
        rw [lastRun_concat hblank, List.reverse_append, List.reverse_singleton,
          List.singleton_append]
      rw [hrun] at hstep
      unfold filePathFrom
      rw [hblank, if_neg Bool.false_ne_true]
      split_ifs with hslash
      · simp only [Bool.and_eq_true, decide_eq_true_eq, Bool.not_eq_true', List.isEmpty_reverse,
          List.isEmpty_eq_false_iff] at hslash
        obtain ⟨rfl, hinside⟩ := hslash
        split
        · next content hsegment =>
          have hcandidate := candidate_append_iff.mpr ⟨hinside, hsegment⟩
          rw [List.reverse_cons, List.reverse_reverse, List.append_assoc, List.singleton_append]
          exact hstep _ (h.take hcandidate)
        · next hsegment =>
          refine hstep best (h.skip hpart (fun content hcandidate => ?_) hblank)
          rw [candidate_append_iff, hsegment] at hcandidate
          simp at hcandidate
      · refine hstep best (h.skip hpart (fun content hcandidate => hslash ?_) hblank)
        obtain rfl := hcandidate.next_eq hread
        simpa using (candidate_append_iff.mp hcandidate).1

theorem isFilePath_filePathOf (symbol : List Char) : IsFilePath symbol (filePathOf symbol) := by
  have hstart : Reached symbol [] none := fun left content _ => Nat.zero_le left.length
  exact isFilePath_filePathFrom [] symbol none hstart

/-- The search for the file path follows the rule: it gives the run of the leftmost candidate up to
the rightmost candidate in it, with the content behind that, and nothing without candidates. -/
theorem filePathOf_eq_iff (symbol path : List Char) :
    filePathOf symbol = path ↔ IsFilePath symbol path := by
  constructor
  · rintro rfl
    exact isFilePath_filePathOf symbol
  · intro h
    exact (isFilePath_filePathOf symbol).unique h

end SymbolSearch.Descriptor
