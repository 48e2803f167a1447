import Mathlib.Data.Set.Subsingleton
import SymbolSearch.Proofs.Symbol.Scan

/-!
# Where the chain of a symbol starts

The chain of a symbol can be told without a scan: it is what follows a slash that stands outside
backticks, provided that all later slashes and blanks stand inside backticks. Backticks need not
come in pairs. At most one slash of a text is of that kind, the scan finds it if there is one, and
a symbol without it has an empty chain.

## Main definitions

* `Descriptor.SplitsAt` — a symbol divided at the slash before its chain

## Main results

* `Descriptor.SplitsAt.unique` — a symbol is divided in one way at most
* `Descriptor.splitsAt_subsingleton_and_chainOf_eq_iff` — the chain is what the division gives
-/

namespace SymbolSearch.Descriptor

variable {symbol before before' chain chain' : List Char}

/-- A symbol consists of a text, a slash outside backticks, and a chain whose slashes and blanks
stand inside backticks. -/
structure SplitsAt (symbol before chain : List Char) : Prop where
  eq : symbol = before ++ '/' :: chain
  even : Even (before.count '\x60')
  enclosed : Enclosed isBoundary chain

theorem SplitsAt.chainOf_eq (h : SplitsAt symbol before chain) : chainOf symbol = chain := by
  rw [h.eq]
  exact chainOf_append h.even h.enclosed

/-- The chain is found by the scan, so that two divisions have the same chain and with it the same
text before the slash. -/
theorem SplitsAt.unique (h : SplitsAt symbol before chain) (h' : SplitsAt symbol before' chain') :
    before = before' ∧ chain = chain' := by
  have hchain : chain = chain' := h.chainOf_eq.symm.trans h'.chainOf_eq
  have heq : before ++ '/' :: chain = before' ++ '/' :: chain := by
    rw [← h.eq, h'.eq, hchain]
  exact ⟨List.append_cancel_right heq, hchain⟩

/-! ### What the scan has found -/

theorem leavesOpen_concat (s : List Char) (c : Char) :
    leavesOpen (s ++ [c]) = (leavesOpen s ^^ decide (c = '\x60')) := by
  rw [← leavesOpen_cons, leavesOpen, leavesOpen, (List.perm_append_singleton c s).count_eq]

/-- A slash outside backticks divides the text that it ends. -/
theorem splitsAt_slash (heven : Even (before.count '\x60')) :
    SplitsAt (before ++ ['/']) before [] where
  eq := rfl
  even := heven
  enclosed := by
    intro left c right heq
    simp at heq

theorem Enclosed.concat {p : Char → Bool} {s : List Char} {c : Char} (h : Enclosed p s)
    (hc : p c = true → Odd (s.count '\x60')) : Enclosed p (s ++ [c]) := by
  intro left d right heq hd
  rcases List.eq_nil_or_concat right with rfl | ⟨right, e, rfl⟩
  · obtain ⟨rfl, hlast⟩ := List.append_inj' heq rfl
    rw [List.singleton_inj] at hlast
    exact hc (hlast ▸ hd)
  · rw [List.concat_eq_append, ← List.cons_append, ← List.append_assoc] at heq
    exact h left d right (List.append_inj' heq rfl).1 hd

/-- A division stays one when a character follows, except for a boundary outside backticks. -/
theorem SplitsAt.concat {c : Char} (h : SplitsAt symbol before chain)
    (hc : isBoundary c = true → leavesOpen symbol = true) :
    SplitsAt (symbol ++ [c]) before (chain ++ [c]) where
  eq := by rw [h.eq, List.append_assoc, List.cons_append]
  even := h.even
  enclosed := by
    apply h.enclosed.concat
    intro hboundary
    have hodd : Odd (symbol.count '\x60') := leavesOpen_iff.mp (hc hboundary)
    rw [h.eq, List.count_append, List.count_cons_of_ne (by decide)] at hodd
    exact (Nat.odd_add'.mp hodd).mpr h.even

/-- What the scan has found comes from a division of the part that was read, followed by the part
that is left. -/
def IsFound (read rest : List Char) (found : Option (List Char)) : Prop :=
  ∀ f ∈ found, ∃ before chain, SplitsAt read before chain ∧ f = chain ++ rest

theorem isFound_none (read rest : List Char) : IsFound read rest none := by
  intro f hf
  simp at hf

theorem IsFound.concat {read rest : List Char} {c : Char} {found : Option (List Char)}
    (h : IsFound read (c :: rest) found) (hc : isBoundary c = true → leavesOpen read = true) :
    IsFound (read ++ [c]) rest found := by
  intro f hf
  obtain ⟨before, chain, hsplit, rfl⟩ := h f hf
  exact ⟨before, chain ++ [c], hsplit.concat hc, List.append_cons chain c rest⟩

theorem isFound_slash {read : List Char} (rest : List Char) (h : leavesOpen read = false) :
    IsFound (read ++ ['/']) rest (some rest) := by
  intro f hf
  obtain rfl := Option.some.inj hf
  have heven : Even (read.count '\x60') := by
    rw [← Nat.not_odd_iff_even, ← leavesOpen_iff, h]
    exact Bool.false_ne_true
  exact ⟨read, [], splitsAt_slash heven, rfl⟩

/-- The scan ends with an empty chain unless the text can be divided. -/
theorem exists_splitsAt_or_chainFrom_eq_nil (read rest : List Char) (found : Option (List Char))
    (hfound : IsFound read rest found) :
    (∃ before chain, SplitsAt (read ++ rest) before chain) ∨
      chainFrom (leavesOpen read) found rest = [] := by
  induction rest generalizing read found with
  | nil =>
    cases found with
    | none => exact .inr rfl
    | some f =>
      obtain ⟨before, chain, hsplit, -⟩ := hfound f rfl
      exact .inl ⟨before, chain, by rwa [List.append_nil]⟩
  | cons c rest ih =>
    have hstep := ih (read ++ [c])
    rw [← List.append_cons, leavesOpen_concat] at hstep
    rw [chainFrom]
    by_cases htick : c = '\x60'
    · rw [if_pos htick]
      have hplain : isBoundary c = false := by
        rw [htick]
        decide
      simpa [htick] using hstep found (hfound.concat (by simp [hplain]))
    · rw [decide_eq_false htick, Bool.xor_false] at hstep
      rw [if_neg htick]
      cases hopen : leavesOpen read with
      | true =>
        rw [hopen] at hstep
        exact hstep found (hfound.concat fun _ => hopen)
      | false =>
        rw [hopen] at hstep
        rw [if_neg Bool.false_ne_true]
        -- Outside backticks a slash starts the chain afresh and a blank gives it up.
        split_ifs with hslash hblank
        · subst hslash
          exact hstep (some rest) (isFound_slash rest hopen)
        · exact hstep none (isFound_none _ _)
        · have hplain : isBoundary c = false := by simp [isBoundary, hslash, hblank]
          exact hstep found (hfound.concat (by simp [hplain]))

theorem chainOf_eq_nil_of_forall_not_splitsAt
    (h : ∀ before chain, ¬ SplitsAt symbol before chain) : chainOf symbol = [] := by
  rcases exists_splitsAt_or_chainFrom_eq_nil [] symbol none (isFound_none _ _) with hsplit | hnil
  · obtain ⟨before, chain, hsplit⟩ := hsplit
    exact absurd hsplit (h before chain)
  · exact hnil

/-- A chain that is not empty comes from a division. -/
theorem exists_splitsAt_of_chainOf_ne_nil (h : chainOf symbol ≠ []) :
    ∃ before, SplitsAt symbol before (chainOf symbol) := by
  by_contra hnone
  apply h
  apply chainOf_eq_nil_of_forall_not_splitsAt
  intro before chain hsplit
  exact hnone ⟨before, hsplit.chainOf_eq.symm ▸ hsplit⟩

/-- A symbol is divided in one way at most, and its chain is the one of that division, or empty if
there is none. -/
theorem splitsAt_subsingleton_and_chainOf_eq_iff (symbol : List Char) :
    {split : List Char × List Char | SplitsAt symbol split.1 split.2}.Subsingleton ∧
      ∀ chain, chainOf symbol = chain ↔
        (∃ before, SplitsAt symbol before chain) ∨
          (chain = [] ∧ ∀ before chain, ¬ SplitsAt symbol before chain) := by
  constructor
  · intro split h split' h'
    obtain ⟨hbefore, hchain⟩ := h.unique h'
    exact Prod.ext hbefore hchain
  · intro chain
    constructor
    · rintro rfl
      by_cases hsplit : ∃ before chain, SplitsAt symbol before chain
      · obtain ⟨before, chain, hsplit⟩ := hsplit
        exact .inl ⟨before, hsplit.chainOf_eq.symm ▸ hsplit⟩
      · simp only [not_exists] at hsplit
        exact .inr ⟨chainOf_eq_nil_of_forall_not_splitsAt hsplit, hsplit⟩
    · rintro (⟨before, hsplit⟩ | ⟨rfl, hnone⟩)
      · exact hsplit.chainOf_eq
      · exact chainOf_eq_nil_of_forall_not_splitsAt hnone

end SymbolSearch.Descriptor
