import Mathlib.Data.List.Sort
import SymbolSearch.Proofs.Occurrence.KeepFirst

/-!
# Merged occurrences

When two lists are merged, the second stands behind the first, and an occurrence is kept exactly if
no earlier one has its position. This is a matter of places: equal occurrences at two places are two
occurrences, and only the earlier one can be kept. The places fix the merged list, since they can be
put in order in one way only. So every position of the two lists is there once, and an occurrence of
the second list is there only if the first list has nothing at its position.

Places also make the grouping of several lists immaterial: what counts is the one list in which they
all stand behind each other. A list is the result of a merge exactly if no position is there twice,
and then merging it again changes nothing.

## Main definitions

* `Occurrence.IsFirstAt` — the position at a place is not met at an earlier one
* `Occurrence.KeepsFirsts` — a list holds what another one has at such places, in order
* `Occurrence.newPlaces` — these places, leaving out positions that were seen before the list
* `Occurrence.IsMerged` — a list is the result of a merge

## Main results

* `Occurrence.keepUnseen_eq_map_newPlaces` — the places at which the pass keeps an occurrence
* `Occurrence.KeepsFirsts.unique` — only one list holds these occurrences in order
* `Occurrence.keepsFirsts_iff_eq_merge` — that list is the merged one
* `Occurrence.merge_assoc_and_fixed_iff` — the grouping of lists, and the lists a merge leaves alone
-/

namespace SymbolSearch.Occurrence

variable {l kept kept' : List Occurrence}

/-! ### Places -/

/-- No earlier occurrence of the list has the position of the one at this place. -/
def IsFirstAt (l : List Occurrence) (place : Fin l.length) : Prop :=
  ∀ earlier < place, l[earlier].position ≠ l[place].position

instance decidableIsFirstAt (l : List Occurrence) (place : Fin l.length) :
    Decidable (IsFirstAt l place) :=
  inferInstanceAs (Decidable (∀ earlier, earlier < place → _))

theorem isFirstAt_cons_zero (o : Occurrence) (rest : List Occurrence) :
    IsFirstAt (o :: rest) (0 : Fin (rest.length + 1)) := by
  intro earlier hlt
  exact absurd hlt (Fin.not_lt_zero earlier)

/-- Behind one more occurrence a place stays first if that occurrence has another position. -/
theorem isFirstAt_cons_succ {o : Occurrence} {rest : List Occurrence} {place : Fin rest.length} :
    IsFirstAt (o :: rest) place.succ ↔
      o.position ≠ rest[place].position ∧ IsFirstAt rest place := by
  refine Fin.forall_fin_succ.trans (and_congr ?_ ?_)
  · exact forall_prop_of_true place.succ_pos
  · apply forall_congr'
    intro earlier
    rw [Fin.succ_lt_succ_iff]
    rfl

/-- The places, in order, at which a position that was not seen before is met for the first time. -/
def newPlaces (seen : List (String × UInt32 × UInt32)) (l : List Occurrence) :
    List (Fin l.length) :=
  (List.finRange l.length).filter fun place => l[place].position ∉ seen ∧ IsFirstAt l place

/-- Behind one more occurrence all places are one further on, and its position has been seen. -/
theorem newPlaces_cons (seen : List (String × UInt32 × UInt32)) (o : Occurrence)
    (rest : List Occurrence) :
    newPlaces seen (o :: rest) =
      (if o.position ∈ seen then [] else [(0 : Fin (rest.length + 1))]) ++
        (newPlaces (o.position :: seen) rest).map Fin.succ := by
  have hplaces : List.finRange (o :: rest).length =
      [0] ++ (List.finRange rest.length).map Fin.succ := List.finRange_succ
  rw [newPlaces, hplaces, List.filter_append, List.filter_map]
  congr 1
  · -- Nothing comes before the first place, so only what was seen can keep it out.
    have hhead : ((o :: rest)[(0 : Fin (rest.length + 1))].position ∉ seen ∧
        IsFirstAt (o :: rest) (0 : Fin (rest.length + 1))) ↔ o.position ∉ seen :=
      and_iff_left (isFirstAt_cons_zero o rest)
    by_cases ho : o.position ∈ seen
    · rw [if_pos ho]
      exact List.filter_cons_of_neg fun hnew => hhead.mp (of_decide_eq_true hnew) ho
    · rw [if_neg ho]
      exact List.filter_cons_of_pos (decide_eq_true (hhead.mpr ho))
  · -- At a later place the position of `o` is an earlier one; it may as well have been seen.
    congr 1
    apply List.filter_congr
    intro place _
    apply decide_eq_decide.mpr
    rw [isFirstAt_cons_succ, List.mem_cons, not_or, ← ne_eq, ne_comm, and_assoc]
    exact and_left_comm

/-- The pass keeps what stands at the places where a new position is met. -/
theorem keepUnseen_eq_map_newPlaces (seen : List (String × UInt32 × UInt32))
    (l : List Occurrence) :
    keepUnseen seen l = (newPlaces seen l).map fun place => l[place] := by
  induction l generalizing seen with
  | nil => rfl
  | cons o rest ih =>
    -- The pass and the places make the same step: `o` is looked at, and then its position is seen.
    have hpass : keepUnseen seen (o :: rest) =
        keepUnseen seen [o] ++ keepUnseen (o.position :: seen) rest :=
      keepUnseen_append seen [o] rest
    rw [hpass, ih, newPlaces_cons, List.map_append, List.map_map]
    congr 1
    rw [keepUnseen]
    by_cases ho : o.position ∈ seen
    · rw [if_pos ho, if_pos (List.contains_iff_mem.mpr ho)]
      rfl
    · rw [if_neg ho, if_neg fun hseen => ho (List.contains_iff_mem.mp hseen)]
      rfl

/-! ### The list of what is kept -/

/-- A list holds the occurrences at certain places of another list, in the order of the places: at
those that are first for their position. -/
def KeepsFirsts (l kept : List Occurrence) : Prop :=
  ∃ places : List (Fin l.length), places.Pairwise (· < ·) ∧
    (∀ place, place ∈ places ↔ IsFirstAt l place) ∧ kept = places.map fun place => l[place]

theorem KeepsFirsts.sublist (h : KeepsFirsts l kept) : kept.Sublist l := by
  obtain ⟨places, hincreasing, -, rfl⟩ := h
  exact List.map_getElem_sublist hincreasing

/-- There is one list of the first places in order, so one list of what they hold. -/
theorem KeepsFirsts.unique (h : KeepsFirsts l kept) (h' : KeepsFirsts l kept') : kept = kept' := by
  obtain ⟨places, hincreasing, hfirst, rfl⟩ := h
  obtain ⟨places', hincreasing', hfirst', rfl⟩ := h'
  have hplaces : places = places' := by
    apply List.Pairwise.eq_of_mem_iff hincreasing hincreasing'
    intro place
    rw [hfirst, hfirst']
  rw [hplaces]

theorem keepsFirsts_keepFirst (l : List Occurrence) : KeepsFirsts l (keepFirst l) := by
  refine ⟨newPlaces [] l, ?_, ?_, keepUnseen_eq_map_newPlaces [] l⟩
  · exact (List.pairwise_lt_finRange l.length).filter _
  · intro place
    simp [newPlaces]

theorem keepsFirsts_iff : KeepsFirsts l kept ↔ kept = keepFirst l := by
  constructor
  · intro h
    exact h.unique (keepsFirsts_keepFirst l)
  · intro h
    rw [h]
    exact keepsFirsts_keepFirst l

/-! ### Two lists -/

/-- What is kept of two lists are the firsts of the one that begins with the first list and goes on
with the second, and no other list holds these in order. Positions are kept once, none is lost, and
what is kept of the second list stands behind the firsts of the first and has positions that the
first list does not have. -/
theorem keepsFirsts_iff_eq_merge (implementation declaration : List Occurrence) :
    let merged := merge implementation declaration
    (∀ kept, KeepsFirsts (implementation ++ declaration) kept ↔ kept = merged) ∧
      merged.Pairwise (fun o p => o.position ≠ p.position) ∧
      (∀ o ∈ implementation ++ declaration, ∃ p ∈ merged, p.position = o.position) ∧
      ∃ own added, merged = own ++ added ∧ KeepsFirsts implementation own ∧
        added.Sublist declaration ∧ ∀ o ∈ added, ∀ p ∈ implementation, p.position ≠ o.position := by
  intro merged
  refine ⟨fun kept => keepsFirsts_iff, ?_, ?_, ?_⟩
  · exact List.pairwise_map.mp (nodup_position_keepFirst _)
  · intro o ho
    exact List.mem_map.mp (mem_map_position_keepFirst.mpr (List.mem_map_of_mem ho))
  · refine ⟨_, _, keepFirst_append implementation declaration, keepsFirsts_keepFirst _, ?_, ?_⟩
    · exact (keepsFirsts_keepFirst _).sublist.trans List.filter_sublist
    · intro o ho p hp heq
      -- What has the position of an implementation is taken out of the second list beforehand.
      have hnew := (List.mem_filter.mp ((keepsFirsts_keepFirst _).sublist.subset ho)).2
      have hmem : o.position ∈ implementation.map position := heq ▸ List.mem_map_of_mem hp
      rw [List.contains_iff_mem.mpr hmem] at hnew
      exact Bool.false_ne_true hnew

/-! ### Several lists

A merged list has the firsts of the lists it was merged from, and as a part of a longer list it may
stand for them. -/

theorem merge_merge_left (a b c : List Occurrence) : merge (merge a b) c = merge (a ++ b) c := by
  apply keepFirst_append_congr
  · exact keepFirst_keepFirst (a ++ b)
  · rfl

theorem merge_merge_right (a b c : List Occurrence) : merge a (merge b c) = merge (a ++ b) c := by
  calc merge a (merge b c)
      = keepFirst (a ++ (b ++ c)) := keepFirst_append_congr rfl (keepFirst_keepFirst (b ++ c))
    _ = merge (a ++ b) c := by rw [merge, List.append_assoc]

theorem merge_nil (l : List Occurrence) : merge l [] = keepFirst l := by
  rw [merge, List.append_nil]

/-- A second copy of a list shows no position that the first copy has not shown. -/
theorem merge_self (l : List Occurrence) : merge l l = keepFirst l := by
  have hnothing : l.filter (fun o => !(l.map position).contains o.position) = [] := by
    rw [List.filter_eq_nil_iff]
    intro o ho
    rw [List.contains_iff_mem.mpr (List.mem_map_of_mem ho)]
    exact Bool.false_ne_true
  rw [merge, keepFirst_append, hnothing]
  exact List.append_nil _

/-- Some two lists are merged into this one. -/
def IsMerged (l : List Occurrence) : Prop := ∃ a b, l = merge a b

theorem isMerged_iff_nodup : IsMerged l ↔ (l.map position).Nodup := by
  constructor
  · rintro ⟨a, b, rfl⟩
    exact nodup_position_keepFirst (a ++ b)
  · intro h
    exact ⟨l, [], by rw [merge_nil, keepFirst_of_nodup h]⟩

theorem isMerged_iff_merge_nil : IsMerged l ↔ merge l [] = l := by
  constructor
  · intro h
    rw [merge_nil, keepFirst_of_nodup (isMerged_iff_nodup.mp h)]
  · intro h
    exact ⟨l, [], h.symm⟩

/-- Three lists may be merged in any grouping, or two of them put behind each other first. Merging a
list with itself is merging it with nothing, and this changes nothing exactly if the list is the
result of a merge, that is, if no two of its occurrences start at one position. -/
theorem merge_assoc_and_fixed_iff (a b c : List Occurrence) :
    (merge (merge a b) c = merge a (merge b c) ∧ merge a (merge b c) = merge (a ++ b) c) ∧
      ∀ m, merge m m = merge m [] ∧ (merge m [] = m ↔ IsMerged m) ∧
        (IsMerged m ↔ m.Pairwise fun o p => o.position ≠ p.position) := by
  refine ⟨⟨?_, merge_merge_right a b c⟩, ?_⟩
  · rw [merge_merge_left, merge_merge_right]
  · intro m
    refine ⟨?_, isMerged_iff_merge_nil.symm, ?_⟩
    · rw [merge_self, merge_nil]
    · rw [isMerged_iff_nodup, List.Nodup, List.pairwise_map]

end SymbolSearch.Occurrence
