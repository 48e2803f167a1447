import Mathlib.Algebra.Ring.Parity
import SymbolSearch.Proofs.Text.Pieces
import SymbolSearch.Symbol.Descriptor

/-!
# Scanning a symbol

What the scanners of a symbol do on a text that was put together from parts. Each scanner has a step
over a part that it only passes, and a part where it settles: the chain is what follows a slash
outside backticks when all later slashes and blanks are inside them, and a file path stays once no
later slash has a quoted segment behind it.

## Main definitions

* `Descriptor.Enclosed` — the characters of a class stand inside backticks
* `Descriptor.Clear` — no slash of a text has a quoted segment behind it

## Main results

* `Descriptor.chainOf_append` — the chain behind a slash outside backticks
* `Descriptor.quotedSegment?_quoted` — the content of a quoted segment
* `Descriptor.filePathFrom_preamble`, `Descriptor.filePathFrom_directory`,
  `Descriptor.filePathFrom_of_clear` — the three stretches of the search for a file path
* `Descriptor.packageOf_fields` — the third of five fields
-/

namespace SymbolSearch

namespace Descriptor

/-! ### Backticks -/

/-- Whether a text leaves a backtick open. -/
def leavesOpen (s : List Char) : Bool := s.count '\x60' % 2 == 1

@[simp] theorem leavesOpen_nil : leavesOpen [] = false := rfl

theorem leavesOpen_cons (c : Char) (s : List Char) :
    leavesOpen (c :: s) = (leavesOpen s ^^ decide (c = '\x60')) := by
  unfold leavesOpen
  by_cases h : c = '\x60'
  · subst h
    rw [List.count_cons_self]
    rcases Nat.mod_two_eq_zero_or_one (s.count '\x60') with h | h <;> simp [Nat.add_mod, h]
  · simp [h]

theorem leavesOpen_iff {s : List Char} : leavesOpen s = true ↔ Odd (s.count '\x60') := by
  rw [leavesOpen, beq_iff_eq, Nat.odd_iff]

/-- Every character of the class `p` stands inside backticks: it comes behind an odd number of
them. -/
def Enclosed (p : Char → Bool) (s : List Char) : Prop :=
  ∀ left c right, s = left ++ c :: right → p c = true → Odd (left.count '\x60')

/-! ### The chain -/

/-- The characters that move the start of a chain. -/
def isBoundary (c : Char) : Bool := c == '/' || Text.isBlank c

/-- Behind any text the scan goes on, with backticks open or not as the text leaves them. -/
theorem chainFrom_append (quoted : Bool) (found : Option (List Char)) (left s : List Char) :
    ∃ found', chainFrom quoted found (left ++ s) =
      chainFrom (quoted ^^ leavesOpen left) found' s := by
  induction left generalizing quoted found with
  | nil => exact ⟨found, by simp⟩
  | cons c left ih =>
    rw [List.cons_append, chainFrom, leavesOpen_cons]
    by_cases htick : c = '\x60'
    · rw [if_pos htick]
      obtain ⟨found', h⟩ := ih (!quoted) found
      refine ⟨found', h.trans ?_⟩
      cases quoted <;> simp [htick]
    · rw [if_neg htick, decide_eq_false htick, Bool.xor_false]
      split_ifs
      all_goals exact ih _ _

/-- Without a boundary outside backticks the scan keeps what it has found. -/
theorem chainFrom_of_enclosed (quoted : Bool) (found : Option (List Char)) (s : List Char)
    (h : ∀ left c right, s = left ++ c :: right → isBoundary c = true →
      (quoted ^^ leavesOpen left) = true) :
    chainFrom quoted found s = found.getD [] := by
  induction s generalizing quoted with
  | nil => rfl
  | cons c s ih =>
    have hrest : ∀ left d right, s = left ++ d :: right → isBoundary d = true →
        (quoted ^^ decide (c = '\x60') ^^ leavesOpen left) = true := by
      intro left d right heq hd
      have := h (c :: left) d right (by rw [heq, List.cons_append]) hd
      rwa [leavesOpen_cons, Bool.xor_comm (leavesOpen left), ← Bool.xor_assoc] at this
    have hhead : isBoundary c = true → quoted = true := by
      intro hc
      simpa using h [] c s rfl hc
    rw [chainFrom]
    by_cases htick : c = '\x60'
    · rw [if_pos htick]
      exact ih _ (by simpa [htick] using hrest)
    · rw [decide_eq_false htick, Bool.xor_false] at hrest
      rw [if_neg htick]
      -- A boundary is met inside backticks only, where it is passed over.
      cases quoted with
      | true => exact ih true hrest
      | false =>
        have hplain : isBoundary c = false := by simpa using hhead
        simp only [isBoundary, Bool.or_eq_false_iff, beq_eq_false_iff_ne] at hplain
        rw [if_neg Bool.false_ne_true, if_neg hplain.1, hplain.2]
        exact ih false hrest

/-- What follows a slash outside backticks is the chain if its own slashes and blanks are inside
backticks. -/
theorem chainOf_append {left chain : List Char} (heven : Even (left.count '\x60'))
    (h : Enclosed isBoundary chain) : chainOf (left ++ '/' :: chain) = chain := by
  obtain ⟨found, hleft⟩ := chainFrom_append false none left ('/' :: chain)
  have hclosed : leavesOpen left = false := by
    rw [← Bool.not_eq_true, leavesOpen_iff, Nat.not_odd_iff_even]
    exact heven
  have hchain : ∀ l c r, chain = l ++ c :: r → isBoundary c = true →
      (false ^^ leavesOpen l) = true := by
    intro l c r heq hc
    rw [Bool.false_xor, leavesOpen_iff]
    exact h l c r heq hc
  rw [chainOf, hleft, hclosed, Bool.xor_false, chainFrom]
  exact chainFrom_of_enclosed false (some chain) chain hchain

/-! ### Quoted segments -/

/-- A text whose first character behind its backslashes is no backtick starts with no quoted
segment. -/
theorem quotedSegment?_eq_none {s : List Char}
    (h : (s.dropWhile (· == '\\')).head? ≠ some '\x60') : quotedSegment? s = none := by
  unfold quotedSegment?
  split
  · next body heq => exact absurd (by rw [heq]; rfl) h
  · rfl

/-- No quoted segment starts before a text without backticks that is more than backslashes. -/
theorem quotedSegment?_append_eq_none {u : List Char} (t : List Char) (htick : '\x60' ∉ u)
    (hother : ∃ c ∈ u, c ≠ '\\') : quotedSegment? (u ++ t) = none := by
  apply quotedSegment?_eq_none
  induction u with
  | nil => simp at hother
  | cons c u ih =>
    rw [List.mem_cons, not_or] at htick
    by_cases hc : c = '\\'
    · rw [List.cons_append, List.dropWhile_cons_of_pos (by simp [hc])]
      refine ih htick.2 ?_
      obtain ⟨d, hd, hne⟩ := hother
      rcases List.mem_cons.mp hd with rfl | hmem
      · exact absurd hc hne
      · exact ⟨d, hmem, hne⟩
    · rw [List.cons_append, List.dropWhile_cons_of_neg (by simpa using hc), List.head?_cons]
      exact fun heq => htick.1 (Option.some.inj heq).symm

theorem dropWhile_backslashes (n : Nat) {c : Char} (t : List Char) (h : c ≠ '\\') :
    (List.replicate n '\\' ++ c :: t).dropWhile (· == '\\') = c :: t := by
  rw [List.dropWhile_append_of_pos (by simp), List.dropWhile_cons_of_neg (by simpa using h)]

/-- A content between backticks, each with any number of backslashes before it. -/
theorem quotedSegment?_quoted {content : List Char} (opening closing : Nat) (t : List Char)
    (hne : content ≠ []) (hplain : ∀ c ∈ content, endsSegment c = false) :
    quotedSegment? (List.replicate opening '\\' ++ '\x60' ::
      (content ++ (List.replicate closing '\\' ++ '\x60' :: t))) = some content := by
  have hcontent : ∀ c ∈ content, (!endsSegment c) = true := fun c hc => by rw [hplain c hc]; rfl
  -- The content ends where the closing backslashes or the closing backtick stand.
  have htake : (List.replicate closing '\\' ++ '\x60' :: t).takeWhile (!endsSegment ·) = [] := by
    cases closing <;> rfl
  have hdrop : (List.replicate closing '\\' ++ '\x60' :: t).dropWhile (!endsSegment ·) =
      List.replicate closing '\\' ++ '\x60' :: t := by
    cases closing <;> rfl
  unfold quotedSegment?
  rw [dropWhile_backslashes opening _ (by decide)]
  simp only [List.takeWhile_append_of_pos hcontent, List.dropWhile_append_of_pos hcontent, htake,
    hdrop, dropWhile_backslashes closing t (show '\x60' ≠ '\\' by decide), List.append_nil,
    List.isEmpty_iff, if_neg hne]

/-! ### The file path -/

/-- No slash of the text has a quoted segment behind it. -/
def Clear : List Char → Prop
  | [] => True
  | c :: rest => (c = '/' → quotedSegment? rest = none) ∧ Clear rest

theorem clear_append {u t : List Char} (hu : '/' ∉ u) (ht : Clear t) : Clear (u ++ t) := by
  induction u with
  | nil => exact ht
  | cons c u ih =>
    rw [List.mem_cons, not_or] at hu
    exact ⟨fun heq => absurd heq.symm hu.1, ih hu.2⟩

/-- A file name may hold slashes; what follows one of them is more than backslashes. -/
theorem clear_append_fileName {file t : List Char} (hplain : ∀ c ∈ file, endsSegment c = false)
    (hlast : file.getLast? ≠ some '/') (ht : Clear t) : Clear (file ++ t) := by
  induction file with
  | nil => exact ht
  | cons c file ih =>
    have hrest : ∀ d ∈ file, endsSegment d = false := fun d hd =>
      hplain d (List.mem_cons_of_mem _ hd)
    refine ⟨?_, ?_⟩
    · rintro rfl
      have hne : file ≠ [] := by
        rintro rfl
        exact hlast rfl
      obtain ⟨d, hd⟩ := List.exists_mem_of_ne_nil file hne
      refine quotedSegment?_append_eq_none t ?_ ⟨d, hd, ?_⟩
      · intro hmem
        exact absurd (hrest _ hmem) (by decide)
      · rintro rfl
        exact absurd (hrest _ hd) (by decide)
    · cases file with
      | nil => exact ht
      | cons d file => exact ih hrest (by simpa using hlast)

/-- A file path that was found stays when no better one can follow. -/
theorem filePathFrom_of_clear {s : List Char} (run path : List Char) (h : Clear s) :
    filePathFrom run (some path) s = path := by
  induction s generalizing run with
  | nil => rfl
  | cons c s ih =>
    obtain ⟨hslash, hrest⟩ := h
    rw [filePathFrom]
    split
    · rfl
    · split
      · next hc =>
        simp only [Bool.and_eq_true, decide_eq_true_eq] at hc
        rw [hslash hc.1]
        exact ih _ hrest
      · exact ih _ hrest

/-- Before a text without backticks has ended no file path is found, and the space behind it starts
the search afresh. -/
theorem filePathFrom_preamble {u : List Char} (run t : List Char) (htick : '\x60' ∉ u) :
    filePathFrom run none (u ++ ' ' :: t) = filePathFrom [] none t := by
  induction u generalizing run with
  | nil => rfl
  | cons c u ih =>
    rw [List.mem_cons, not_or] at htick
    have hnone : quotedSegment? (u ++ ' ' :: t) = none := by
      rw [List.append_cons]
      refine quotedSegment?_append_eq_none t ?_ ⟨' ', by simp, by decide⟩
      simpa using htick.2
    rw [List.cons_append, filePathFrom, hnone]
    split_ifs
    all_goals exact ih _ htick.2

/-- Inside a directory no file path is found before its last slash. -/
theorem filePathFrom_directory {d : List Char} (run t : List Char) (htick : '\x60' ∉ d)
    (hblank : ∀ c ∈ d, Text.isBlank c = false) :
    filePathFrom run none (d ++ '/' :: t) = filePathFrom (d.reverse ++ run) none ('/' :: t) := by
  induction d generalizing run with
  | nil => rfl
  | cons c d ih =>
    rw [List.mem_cons, not_or] at htick
    have hnone : quotedSegment? (d ++ '/' :: t) = none := by
      rw [List.append_cons]
      refine quotedSegment?_append_eq_none t ?_ ⟨'/', by simp, by decide⟩
      simpa using htick.2
    have hrest : ∀ e ∈ d, Text.isBlank e = false := fun e he => hblank e (List.mem_cons_of_mem _ he)
    have hrun : d.reverse ++ c :: run = (c :: d).reverse ++ run := by simp
    rw [List.cons_append, filePathFrom, hnone, hblank c List.mem_cons_self,
      if_neg Bool.false_ne_true, ← hrun, ← ih (c :: run) htick.2 hrest]
    split <;> rfl

/-! ### The package -/

/-- Of four fields without spaces, and whatever follows them, the third is the package. -/
theorem packageOf_fields {tool manager package version : List Char} (t : List Char)
    (htool : tool ≠ [] ∧ ' ' ∉ tool) (hmanager : manager ≠ [] ∧ ' ' ∉ manager)
    (hpackage : package ≠ [] ∧ ' ' ∉ package) (hversion : version ≠ [] ∧ ' ' ∉ version) :
    packageOf (tool ++ ' ' :: (manager ++ ' ' :: (package ++ ' ' :: (version ++ ' ' :: t)))) =
      package := by
  obtain ⟨field, fields, hfields⟩ := List.exists_cons_of_ne_nil (Text.splitOn_ne_nil ' ' t)
  rw [packageOf, Text.splitOn_append htool.2, Text.splitOn_append hmanager.2,
    Text.splitOn_append hpackage.2, Text.splitOn_append hversion.2, hfields]
  simp [htool.1, hmanager.1, hpackage.1, hversion.1]

end Descriptor

end SymbolSearch
