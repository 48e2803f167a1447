import Mathlib.Data.List.Perm.Basic
import SymbolSearch.Proofs.Index.Append

/-!
# Documents in another order

Which of several records at one position is kept depends on the order of the documents, and so does
the order of the keys. But the positions under a key are those of all its records, kept or not, so
no count depends on the order. Where no two documents have the same path, records compete only
inside one document, and the order of the documents has no part in which of them is kept.

## Main results

* `Index.mem_map_position_bucketOf_iff` — the positions of a bucket are those of all its records
* `Index.symbolCount_perm`, `Index.keyCount_perm`, `Index.fileCount_perm`,
  `Index.skippedCount_perm` — the counts of an index do not depend on the order
* `Index.bucketOf_perm_of_nodup` — neither do the buckets when the paths differ
-/

namespace SymbolSearch.Index

variable {convention : Convention} {scan scan' : List Sighting} {a b documents : List Document}
  {key : Key} {o : Occurrence}

theorem sightings_perm (h : a.Perm b) : (sightings a).Perm (sightings b) := h.flatMap_right _

/-! ### Keys and files -/

theorem eraseDups_perm {α : Type*} [BEq α] [LawfulBEq α] {l l' : List α} (h : l.Perm l') :
    l.eraseDups.Perm l'.eraseDups := by
  apply (List.perm_ext_iff_of_nodup (nodup_eraseDups l) (nodup_eraseDups l')).mpr
  intro x
  rw [List.mem_eraseDups, List.mem_eraseDups, h.mem_iff]

theorem keysOf_perm (convention : Convention) (h : scan.Perm scan') :
    (keysOf convention scan).Perm (keysOf convention scan') :=
  eraseDups_perm ((h.filter _).map _)

theorem keyCount_perm (convention : Convention) (h : a.Perm b) :
    (build convention a).keyCount = (build convention b).keyCount := by
  rw [keyCount, keyCount, buckets_build, buckets_build, List.length_map, List.length_map]
  exact (keysOf_perm convention (sightings_perm h)).length_eq

theorem mem_keys_perm (convention : Convention) (h : a.Perm b) (key : Key) :
    key ∈ (build convention a).keys ↔ key ∈ (build convention b).keys := by
  rw [keys_build, keys_build]
  exact (keysOf_perm convention (sightings_perm h)).mem_iff

theorem fileCount_build (convention : Convention) (documents : List Document) :
    (build convention documents).fileCount =
      (((sightings documents).filter Sighting.isValid).map Sighting.path).eraseDups.length := by
  rw [build_eq_finish]
  rfl

theorem fileCount_perm (convention : Convention) (h : a.Perm b) :
    (build convention a).fileCount = (build convention b).fileCount := by
  rw [fileCount_build, fileCount_build]
  exact (eraseDups_perm (((sightings_perm h).filter _).map _)).length_eq

theorem skippedCount_perm (convention : Convention) (h : a.Perm b) :
    (build convention a).skippedCount = (build convention b).skippedCount := by
  rw [skippedCount_build, skippedCount_build]
  exact (sightings_perm h).countP_eq _

/-! ### Positions -/

/-- A position is in a bucket if some well-formed record of the key starts there, whether that
record was kept or another one in its place. -/
theorem mem_map_position_bucketOf_iff {p : String × UInt32 × UInt32} :
    p ∈ (bucketOf convention scan key).map Occurrence.position ↔
      ∃ s ∈ scan, s.key convention = key ∧ s.position? = some p := by
  rw [List.mem_map]
  constructor
  · rintro ⟨o, ho, rfl⟩
    obtain ⟨s, hs, hkey, hso⟩ := mem_bucketOf_iff.mp ho
    exact ⟨s, hs.mem, hkey, s.position?_of_occurrence? hso⟩
  · rintro ⟨s, hs, rfl, hp⟩
    -- The record may have been merged away, but then for another one at its position.
    obtain ⟨t, ht, hkey, htp⟩ := exists_isFirst convention hs hp
    obtain ⟨o, hto, hop⟩ := Sighting.position?_eq_some_iff.mp htp
    exact ⟨o, hkey ▸ ht.mem_bucketOf hto, hop⟩

theorem map_position_bucketOf_perm (convention : Convention) (h : scan.Perm scan') (key : Key) :
    ((bucketOf convention scan key).map Occurrence.position).Perm
      ((bucketOf convention scan' key).map Occurrence.position) := by
  apply (List.perm_ext_iff_of_nodup (nodup_position_bucketOf convention scan key)
    (nodup_position_bucketOf convention scan' key)).mpr
  intro p
  simp only [mem_map_position_bucketOf_iff, h.mem_iff]

/-- The occurrences of an index are as many as the positions of its buckets. -/
theorem symbolCount_build (convention : Convention) (documents : List Document) :
    (build convention documents).symbolCount =
      ((keysOf convention (sightings documents)).flatMap fun key =>
        (bucketOf convention (sightings documents) key).map Occurrence.position).length := by
  rw [symbolCount, buckets_build, List.flatMap_map, ← List.map_flatMap, List.length_map]

theorem symbolCount_perm (convention : Convention) (h : a.Perm b) :
    (build convention a).symbolCount = (build convention b).symbolCount := by
  have hscan := sightings_perm h
  rw [symbolCount_build, symbolCount_build]
  -- The occurrences may differ between the two orders, their positions do not.
  apply List.Perm.length_eq
  apply (keysOf_perm convention hscan).flatMap
  intro key _
  exact map_position_bucketOf_perm convention hscan key

/-! ### Documents with different paths -/

/-- The records of one document. -/
def sightingsIn (document : Document) : List Sighting :=
  document.records.map (Sighting.mk document.path)

theorem file_of_mem_occurrencesUnder {document : Document}
    (h : o ∈ occurrencesUnder convention (sightingsIn document) key) : o.file = document.path := by
  obtain ⟨s, hs, hso⟩ := List.mem_filterMap.mp h
  obtain ⟨record, -, rfl⟩ := List.mem_map.mp hs
  split at hso
  · exact Sighting.file_of_occurrence? hso
  · cases hso

/-- Documents with different paths keep their first occurrences each for itself. -/
theorem keepFirst_occurrencesUnder (hpaths : (documents.map Document.path).Nodup) :
    Occurrence.keepFirst (occurrencesUnder convention (sightings documents) key) =
      documents.flatMap fun document =>
        Occurrence.keepFirst (occurrencesUnder convention (sightingsIn document) key) := by
  rw [occurrencesUnder, sightings, List.filterMap_flatMap]
  apply Occurrence.keepFirst_flatMap
  refine (List.pairwise_map.mp hpaths).imp ?_
  intro d d' hne o ho p hp heq
  -- A position names its file, and the files are the two paths.
  apply hne
  calc d.path = o.file := (file_of_mem_occurrencesUnder ho).symm
    _ = p.file := congrArg Prod.fst heq
    _ = d'.path := file_of_mem_occurrencesUnder hp

theorem bucketOf_perm_keepFirst (convention : Convention) (scan : List Sighting) (key : Key) :
    (bucketOf convention scan key).Perm
      (Occurrence.keepFirst (occurrencesUnder convention scan key)) := by
  apply (List.perm_ext_iff_of_nodup ?_ ?_).mpr fun o => mem_bucketOf_iff_mem_keepFirst
  · exact List.Nodup.of_map _ (nodup_position_bucketOf convention scan key)
  · exact List.Nodup.of_map _ (Occurrence.nodup_position_keepFirst _)

/-- When the paths differ, a bucket has the same occurrences whatever the order of the documents. -/
theorem bucketOf_perm_of_nodup (convention : Convention) (h : a.Perm b)
    (hpaths : (a.map Document.path).Nodup) (key : Key) :
    (bucketOf convention (sightings a) key).Perm (bucketOf convention (sightings b) key) := by
  have hpaths' : (b.map Document.path).Nodup := (h.map Document.path).nodup_iff.mp hpaths
  refine (bucketOf_perm_keepFirst convention _ key).trans ?_
  refine List.Perm.trans ?_ (bucketOf_perm_keepFirst convention _ key).symm
  rw [keepFirst_occurrencesUnder hpaths, keepFirst_occurrencesUnder hpaths']
  exact h.flatMap_right _

end SymbolSearch.Index
