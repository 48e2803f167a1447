import SymbolSearch.Occurrence

/-!
# The first occurrence at each position

Keeping the first occurrence at each position is the removal of duplicates up to position. The
positions already seen act as a filter on what comes after them, so a list can be cut anywhere: the
second part keeps what the first part has not shown.

## Main definitions

* `Occurrence.samePosition` — two occurrences start at one place

## Main results

* `Occurrence.keepFirst_eq_eraseDupsBy` — the pass with a set of seen positions removes duplicates
* `Occurrence.keepFirst_append` — keeping firsts in a list that was cut in two
* `Occurrence.keepFirst_append_of_disjoint` — parts without a common position do not interact
* `Occurrence.mem_keepFirst_iff` — what stays is what no earlier occurrence shares its position with
* `Occurrence.nodup_position_keepFirst` — no two occurrences that stay share a position
* `Occurrence.keepFirst_filter` — keeping firsts and selecting by position commute
* `Occurrence.keepFirst_append_congr` — parts may be exchanged for parts with the same firsts
* `Occurrence.keepFirst_flatMap` — blocks without a common position do not interact
-/

namespace SymbolSearch.Occurrence

variable {seen seen' : List (String × UInt32 × UInt32)} {a b : List Occurrence}

/-- Whether two occurrences start at the same place. -/
def samePosition (o p : Occurrence) : Bool := o.position == p.position

/-! ### Seen positions as a filter -/

/-- Only which positions were seen matters, not in which order. -/
theorem keepUnseen_congr (h : ∀ p, p ∈ seen ↔ p ∈ seen') (l : List Occurrence) :
    keepUnseen seen l = keepUnseen seen' l := by
  induction l generalizing seen seen' with
  | nil => rfl
  | cons o rest ih =>
    have hc : seen.contains o.position = seen'.contains o.position := by
      rw [Bool.eq_iff_iff, List.contains_iff_mem, List.contains_iff_mem, h]
    have hcons : ∀ p, p ∈ o.position :: seen ↔ p ∈ o.position :: seen' := fun p => by
      rw [List.mem_cons, List.mem_cons, h p]
    rw [keepUnseen, keepUnseen, hc, ih h, ih hcons]

/-- Seen positions are taken out first, duplicates up to position afterwards. -/
theorem keepUnseen_eq_eraseDupsBy (seen : List (String × UInt32 × UInt32)) (l : List Occurrence) :
    keepUnseen seen l =
      (l.filter fun o => !seen.contains o.position).eraseDupsBy samePosition := by
  induction l generalizing seen with
  | nil => rfl
  | cons o rest ih =>
    rw [keepUnseen]
    split
    · next hseen => rw [ih, List.filter_cons_of_neg (by simpa using hseen)]
    · next hnew =>
      rw [List.filter_cons_of_pos (by simpa using hnew), List.eraseDupsBy_cons, ih,
        List.filter_filter]
      -- A position is fresh for the rest if it is neither that of `o` nor seen before.
      congr 2
      refine List.filter_congr fun p _ => ?_
      by_cases hp : p.position = o.position <;> simp [samePosition, hp]

theorem keepFirst_eq_eraseDupsBy (l : List Occurrence) :
    keepFirst l = l.eraseDupsBy samePosition := by
  rw [keepFirst, keepUnseen_eq_eraseDupsBy]
  congr 1
  exact List.filter_eq_self.mpr fun _ _ => rfl

/-! ### Cutting a list -/

theorem keepUnseen_append (seen : List (String × UInt32 × UInt32)) (a b : List Occurrence) :
    keepUnseen seen (a ++ b) =
      keepUnseen seen a ++ keepUnseen (a.map position ++ seen) b := by
  induction a generalizing seen with
  | nil => rfl
  | cons o rest ih =>
    rw [List.cons_append, keepUnseen, keepUnseen]
    split
    · next hseen =>
      rw [ih]
      congr 1
      refine keepUnseen_congr (fun p => ?_) b
      have hmem : o.position ∈ seen := List.contains_iff_mem.mp hseen
      simp only [List.map_cons, List.cons_append, List.mem_cons, List.mem_append]
      constructor
      · exact Or.inr
      · rintro (rfl | h)
        · exact Or.inr hmem
        · exact h
    · rw [ih, List.cons_append]
      congr 2
      refine keepUnseen_congr (fun p => ?_) b
      simp only [List.map_cons, List.cons_append, List.mem_cons, List.mem_append]
      exact or_left_comm

/-- The second part of a list keeps the firsts among what the first part has not shown. -/
theorem keepFirst_append (a b : List Occurrence) :
    keepFirst (a ++ b) =
      keepFirst a ++ keepFirst (b.filter fun o => !(a.map position).contains o.position) := by
  rw [keepFirst, keepUnseen_append, List.append_nil, keepUnseen_eq_eraseDupsBy (a.map position),
    ← keepFirst_eq_eraseDupsBy]
  rfl

theorem keepFirst_append_of_disjoint (h : ∀ o ∈ a, ∀ p ∈ b, o.position ≠ p.position) :
    keepFirst (a ++ b) = keepFirst a ++ keepFirst b := by
  rw [keepFirst_append, List.filter_eq_self.mpr]
  intro p hp
  have : p.position ∉ a.map position := by
    rintro hmem
    obtain ⟨o, ho, heq⟩ := List.mem_map.mp hmem
    exact h o ho p hp heq
  simpa using this

/-! ### What stays -/

theorem mem_keepUnseen_iff {o : Occurrence} {l : List Occurrence} :
    o ∈ keepUnseen seen l ↔ o.position ∉ seen ∧
      ∃ before after, l = before ++ o :: after ∧ ∀ p ∈ before, p.position ≠ o.position := by
  induction l generalizing seen with
  | nil => simp [keepUnseen]
  | cons q rest ih =>
    -- The first place of `o` is the head of the list, or a place of the rest behind another position.
    have hsplit : (∃ before after, q :: rest = before ++ o :: after ∧
          ∀ p ∈ before, p.position ≠ o.position) ↔
        q = o ∨ q.position ≠ o.position ∧ ∃ before after, rest = before ++ o :: after ∧
          ∀ p ∈ before, p.position ≠ o.position := by
      constructor
      · rintro ⟨before, after, heq, hbefore⟩
        cases before with
        | nil => exact Or.inl (List.cons.inj heq).1
        | cons r before =>
          obtain ⟨rfl, hrest⟩ := List.cons.inj heq
          rw [List.forall_mem_cons] at hbefore
          exact Or.inr ⟨hbefore.1, before, after, hrest, hbefore.2⟩
      · rintro (rfl | ⟨hq, before, after, rfl, hbefore⟩)
        · exact ⟨[], rest, rfl, by simp⟩
        · exact ⟨q :: before, after, rfl, List.forall_mem_cons.mpr ⟨hq, hbefore⟩⟩
    rw [hsplit, keepUnseen]
    split
    · next hseen =>
      have hmem : q.position ∈ seen := List.contains_iff_mem.mp hseen
      grind
    · next hnew =>
      have hmem : q.position ∉ seen := fun h => hnew (List.contains_iff_mem.mpr h)
      grind

/-- An occurrence stays if it is somewhere the first at its position. -/
theorem mem_keepFirst_iff {o : Occurrence} {l : List Occurrence} :
    o ∈ keepFirst l ↔
      ∃ before after, l = before ++ o :: after ∧ ∀ p ∈ before, p.position ≠ o.position := by
  rw [keepFirst, mem_keepUnseen_iff]
  simp

theorem nodup_position_keepUnseen (seen : List (String × UInt32 × UInt32)) (l : List Occurrence) :
    ((keepUnseen seen l).map position).Nodup := by
  induction l generalizing seen with
  | nil => exact List.nodup_nil
  | cons o rest ih =>
    rw [keepUnseen]
    split
    · exact ih seen
    · rw [List.map_cons, List.nodup_cons]
      refine ⟨?_, ih _⟩
      rintro hmem
      obtain ⟨p, hp, heq⟩ := List.mem_map.mp hmem
      exact (mem_keepUnseen_iff.mp hp).1 (heq ▸ List.mem_cons_self)

theorem nodup_position_keepFirst (l : List Occurrence) : ((keepFirst l).map position).Nodup :=
  nodup_position_keepUnseen [] l

/-- Whether occurrences are selected before or after the firsts are kept makes no difference when
the selection looks at positions only. -/
theorem keepFirst_filter {q : Occurrence → Bool}
    (hq : ∀ o p : Occurrence, o.position = p.position → q o = q p) (l : List Occurrence) :
    keepFirst (l.filter q) = (keepFirst l).filter q := by
  unfold keepFirst
  generalize ([] : List (String × UInt32 × UInt32)) = seen
  induction l generalizing seen with
  | nil => rfl
  | cons o rest ih =>
    by_cases ho : q o = true
    · rw [List.filter_cons_of_pos ho, keepUnseen, keepUnseen]
      split
      · exact ih seen
      · rw [ih, List.filter_cons_of_pos ho]
    · rw [List.filter_cons_of_neg ho, keepUnseen]
      split
      · exact ih seen
      · -- What has the position of `o` is not selected, so seeing `o` changes nothing.
        rw [List.filter_cons_of_neg ho, ← ih, keepUnseen_eq_eraseDupsBy, keepUnseen_eq_eraseDupsBy]
        congr 1
        refine List.filter_congr fun p hp => ?_
        have hne : p.position ≠ o.position := by
          intro heq
          rw [← hq p o heq] at ho
          exact ho (List.mem_filter.mp hp).2
        simp [hne]

/-! ### Keeping firsts again

The firsts of a list stand for the list: they have its positions, and putting them in its place as
a part of a longer list changes nothing. -/

theorem mem_map_position_keepUnseen {p : String × UInt32 × UInt32} {l : List Occurrence} :
    p ∈ (keepUnseen seen l).map position ↔ p ∈ l.map position ∧ p ∉ seen := by
  induction l generalizing seen with
  | nil => simp [keepUnseen]
  | cons o rest ih =>
    rw [keepUnseen]
    split
    · next hseen =>
      have hmem : o.position ∈ seen := List.contains_iff_mem.mp hseen
      rw [ih, List.map_cons, List.mem_cons]
      grind
    · next hnew =>
      have hmem : o.position ∉ seen := fun h => hnew (List.contains_iff_mem.mpr h)
      rw [List.map_cons, List.mem_cons, ih, List.map_cons, List.mem_cons]
      grind

theorem mem_map_position_keepFirst {p : String × UInt32 × UInt32} {l : List Occurrence} :
    p ∈ (keepFirst l).map position ↔ p ∈ l.map position := by
  simp [keepFirst, mem_map_position_keepUnseen]

theorem keepFirst_of_nodup {l : List Occurrence} (h : (l.map position).Nodup) :
    keepFirst l = l := by
  induction l with
  | nil => rfl
  | cons o rest ih =>
    rw [List.map_cons, List.nodup_cons] at h
    have hdisjoint : ∀ q ∈ [o], ∀ p ∈ rest, q.position ≠ p.position := by
      intro q hq p hp heq
      rw [List.mem_singleton.mp hq] at heq
      exact h.1 (heq ▸ List.mem_map_of_mem hp)
    rw [← List.singleton_append, keepFirst_append_of_disjoint hdisjoint, ih h.2]
    rfl

@[simp] theorem keepFirst_keepFirst (l : List Occurrence) : keepFirst (keepFirst l) = keepFirst l :=
  keepFirst_of_nodup (nodup_position_keepFirst l)

theorem keepFirst_append_keepFirst (a b : List Occurrence) :
    keepFirst (keepFirst a ++ keepFirst b) = keepFirst (a ++ b) := by
  have hseen : ∀ o : Occurrence,
      (!((keepFirst a).map position).contains o.position) =
        !(a.map position).contains o.position := by
    intro o
    rw [Bool.eq_iff_iff]
    simp only [Bool.not_eq_true', ← Bool.not_eq_true, List.contains_iff_mem,
      mem_map_position_keepFirst]
  -- What the first part hides in the second is told by positions, so it can be hidden at any time.
  rw [keepFirst_append, keepFirst_append, keepFirst_keepFirst, keepFirst_filter, keepFirst_keepFirst,
    keepFirst_filter, funext hseen]
  all_goals
    intro o p heq
    rw [heq]

/-- Of the parts of a list only their firsts matter. -/
theorem keepFirst_append_congr {a' b' : List Occurrence} (ha : keepFirst a = keepFirst a')
    (hb : keepFirst b = keepFirst b') : keepFirst (a ++ b) = keepFirst (a' ++ b') := by
  rw [← keepFirst_append_keepFirst a b, ha, hb, keepFirst_append_keepFirst]

/-- A list of blocks, no two with a common position, keeps the firsts of each block. -/
theorem keepFirst_flatMap {α : Type} {blocks : List α} {entries : α → List Occurrence}
    (h : blocks.Pairwise fun a b => ∀ o ∈ entries a, ∀ p ∈ entries b, o.position ≠ p.position) :
    keepFirst (blocks.flatMap entries) = blocks.flatMap fun a => keepFirst (entries a) := by
  induction blocks with
  | nil => rfl
  | cons a blocks ih =>
    obtain ⟨hhead, htail⟩ := List.pairwise_cons.mp h
    have hdisjoint : ∀ o ∈ entries a, ∀ p ∈ blocks.flatMap entries, o.position ≠ p.position := by
      intro o ho p hp
      obtain ⟨b, hb, hpb⟩ := List.mem_flatMap.mp hp
      exact hhead b hb o ho p hpb
    rw [List.flatMap_cons, keepFirst_append_of_disjoint hdisjoint, ih htail, List.flatMap_cons]

end SymbolSearch.Occurrence
