import Mathlib.Data.List.Flatten
import SymbolSearch.Proofs.Index.Order
import SymbolSearch.Proofs.Query.Find

/-!
# Searches and the list of documents

A search looks at the buckets of an index one by one, and what it asks of a bucket as a whole is that
some occurrence is there: one that fits the pattern, or a definition in the defining file. So a
bucket that gets more occurrences is found by no fewer queries, and the order inside a bucket has no
part in it. This carries what is known of indexes over to searches. Documents behind the others only
add hits, between the old ones or behind them. Documents in another order give the same hits in
another order, as long as no path occurs twice.

## Main results

* `Query.selects_mono`, `Query.admitsBucket_mono` — a bucket with more occurrences is still found
* `Query.find_build_sublist_append` — more documents only add hits
* `Query.counts_keys_hits_of_perm` — the order of the documents changes neither counts nor hits
-/

namespace SymbolSearch.Query

open Index

variable {convention : Convention} {a b : List Document} {query : String} {filter : Filter}
  {key : Key} {bucket bucket' : List Occurrence}

/-! ### Buckets with more occurrences -/

theorem selects_mono (hsub : bucket ⊆ bucket') (h : selects query key bucket = true) :
    selects query key bucket' = true := by
  unfold selects at h ⊢
  split
  · next hq =>
    rw [if_pos hq, List.any_eq_true] at h
    obtain ⟨o, ho, hfits⟩ := h
    exact List.any_eq_true.mpr ⟨o, hsub ho, hfits⟩
  · next hq => rwa [if_neg hq] at h

theorem admitsBucket_mono (hsub : bucket ⊆ bucket') (h : admitsBucket filter bucket = true) :
    admitsBucket filter bucket' = true := by
  unfold admitsBucket at h ⊢
  cases hfile : filter.definingFile with
  | none => rfl
  | some file =>
    simp only [hfile, isDefinedIn, List.any_eq_true] at h ⊢
    obtain ⟨o, ho, hdefined⟩ := h
    exact ⟨o, hsub ho, hdefined⟩

theorem hitsIn_sublist (h : bucket.Sublist bucket') :
    (hitsIn query filter key bucket).Sublist (hitsIn query filter key bucket') := by
  unfold hitsIn
  split
  · next hselected =>
    rw [Bool.and_eq_true] at hselected
    rw [selects_mono h.subset hselected.1, admitsBucket_mono h.subset hselected.2, Bool.and_self,
      if_pos rfl]
    exact (h.filter _).map _
  · exact List.nil_sublist _

theorem hitsIn_perm (h : bucket.Perm bucket') :
    (hitsIn query filter key bucket).Perm (hitsIn query filter key bucket') := by
  -- Each bucket is part of the other, so the search decides alike on both.
  have hselects : selects query key bucket = selects query key bucket' :=
    Bool.eq_iff_iff.mpr ⟨selects_mono h.subset, selects_mono h.symm.subset⟩
  have hadmits : admitsBucket filter bucket = admitsBucket filter bucket' :=
    Bool.eq_iff_iff.mpr ⟨admitsBucket_mono h.subset, admitsBucket_mono h.symm.subset⟩
  unfold hitsIn
  rw [hselects, hadmits]
  split
  · exact (h.filter _).map _
  · exact List.Perm.nil

/-! ### More documents -/

/-- With more documents behind the others a search finds what it found before, in the same order, and
perhaps more. -/
theorem find_build_sublist_append (convention : Convention) (a b : List Document) (query : String)
    (filter : Filter) :
    (find (build convention a) query filter).Sublist
      (find (build convention (a ++ b)) query filter) := by
  by_cases hne : query = ""
  · subst hne
    exact List.nil_sublist _
  · -- The old keys come first, and each of their buckets has grown in place.
    rw [find_build_of_ne hne, find_build_of_ne hne, sightings_append, keysOf_append,
      List.flatMap_append]
    refine List.Sublist.trans ?_ (List.sublist_append_left _ _)
    apply List.Sublist.flatMap_right
    intro key _
    exact hitsIn_sublist (bucketOf_sublist_append convention _ _ key)

/-! ### Documents in another order -/

theorem find_build_perm (convention : Convention) (h : a.Perm b)
    (hpaths : (a.map Document.path).Nodup) (query : String) (filter : Filter) :
    (find (build convention a) query filter).Perm (find (build convention b) query filter) := by
  by_cases hne : query = ""
  · subst hne
    exact List.Perm.nil
  · rw [find_build_of_ne hne, find_build_of_ne hne]
    apply (keysOf_perm convention (sightings_perm h)).flatMap
    intro key _
    exact hitsIn_perm (bucketOf_perm_of_nodup convention h hpaths key)

/-- The indexes of two orders of the same documents have the same counts and the same keys. If no two
documents have the same path, every search has the same hits in both. -/
theorem counts_keys_hits_of_perm (convention : Convention) {a b : List Document} (h : a.Perm b) :
    let x := build convention a
    let y := build convention b
    x.symbolCount = y.symbolCount ∧ x.keyCount = y.keyCount ∧ x.fileCount = y.fileCount ∧
      x.skippedCount = y.skippedCount ∧ (∀ key, key ∈ x.keys ↔ key ∈ y.keys) ∧
      ((a.map Document.path).Nodup →
        ∀ query filter, (find x query filter).Perm (find y query filter)) :=
  ⟨symbolCount_perm convention h, keyCount_perm convention h, fileCount_perm convention h,
    skippedCount_perm convention h, mem_keys_perm convention h, find_build_perm convention h⟩

/-- A member in its own file. -/
def nameAtHome : Document := ⟨"src/a.ts", [⟨sampleSymbol "A#name.", 1, [1, 2, 6], none⟩]⟩

/-- Two members at one place of another file, and a record without a range. -/
def namesElsewhere : Document :=
  ⟨"lib/b.ts",
    [⟨sampleSymbol "B#name.", 1, [1, 2, 6], none⟩, ⟨sampleSymbol "A#name.", 1, [1, 2, 6], none⟩,
      ⟨sampleSymbol "A#name.", 1, [], none⟩]⟩

theorem counts_keys_hits_of_perm_swap :
    ([nameAtHome, namesElsewhere].map Document.path).Nodup ∧
      (find (build Convention.standard [nameAtHome, namesElsewhere]) "B.name"
          ⟨some "lib/b.ts", none, some .term⟩).Perm
        (find (build Convention.standard [namesElsewhere, nameAtHome]) "B.name"
          ⟨some "lib/b.ts", none, some .term⟩) := by
  have hpaths : ([nameAtHome, namesElsewhere].map Document.path).Nodup := by decide
  have hswap : [nameAtHome, namesElsewhere].Perm [namesElsewhere, nameAtHome] :=
    List.Perm.swap _ _ _
  obtain ⟨-, -, -, -, -, hhits⟩ := counts_keys_hits_of_perm Convention.standard hswap
  exact ⟨hpaths, hhits hpaths _ _⟩

/-- Of two documents with one path the first hides what the second has at the same places. -/
example :
    let other : Document := ⟨"src/a.ts", [⟨sampleSymbol "B#name.", 1, [1, 2, 6], none⟩]⟩
    ¬ (find (build Convention.standard [nameAtHome, other]) "name" Filter.any).Perm
      (find (build Convention.standard [other, nameAtHome]) "name" Filter.any) := by
  decide +kernel

end SymbolSearch.Query
