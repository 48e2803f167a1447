import SymbolSearch.Proofs.Index.Order
import SymbolSearch.Query.Search

/-!
# An index made from its own entries

An index can be made from buckets alone. Made from the buckets of a built index it is that index
again, but for the number of records that were left out, which the buckets do not tell. The number
of files is found in two ways. While documents are scanned, a file counts from its first well-formed
record on, whatever becomes of that record. From buckets, only what was kept counts. The numbers
agree since a record gives way only to one at its own position, and a position names its file.

## Main results

* `Index.ofEntries_of_nodup` — entries with different keys are kept as they are
* `Index.countFiles_eq_card` — counting files one by one gives the number of different ones
* `Index.mem_files_build_iff` — the files of the occurrences kept are those of the records
* `Index.ofEntries_buckets_build` — the index of the buckets of a built index
* `Index.ofEntries_build_same` — what can be seen of it
-/

namespace SymbolSearch.Index

variable {convention : Convention} {documents : List Document} {key : Key}
  {bucket : List Occurrence} {buckets entries : List (Key × List Occurrence)}

/-! ### Putting entries together -/

theorem insert_of_not_mem (h : key ∉ buckets.map Prod.fst) :
    insert key bucket buckets = buckets ++ [(key, bucket)] := by
  induction buckets with
  | nil => rfl
  | cons entry rest ih =>
    rw [List.map_cons, List.mem_cons, not_or] at h
    obtain ⟨hhead, hrest⟩ := h
    rw [insert, if_neg (Ne.symm hhead), ih hrest, List.cons_append]

/-- Entries with different keys take their places one behind the other. -/
theorem foldl_insert_of_nodup (h : (entries.map Prod.fst).Nodup) :
    entries.foldl (fun buckets entry => insert entry.1 entry.2 buckets) [] = entries := by
  -- From the end, where the last key is new among the entries before it.
  induction entries using List.reverseRecOn with
  | nil => rfl
  | append_singleton entries entry ih =>
    rw [List.map_append, List.nodup_append] at h
    obtain ⟨hentries, -, hnew⟩ := h
    rw [List.foldl_append, ih hentries]
    apply insert_of_not_mem
    intro hmem
    exact hnew entry.1 hmem entry.1 (List.mem_singleton_self _) rfl

theorem ofEntries_of_nodup (h : (entries.map Prod.fst).Nodup) :
    ofEntries entries = ⟨entries, countFiles (entries.flatMap Prod.snd), 0⟩ := by
  have hbuckets : (ofEntries entries).buckets = entries := foldl_insert_of_nodup h
  calc ofEntries entries
      = ⟨(ofEntries entries).buckets, countFiles ((ofEntries entries).buckets.flatMap Prod.snd),
          0⟩ := rfl
    _ = ⟨entries, countFiles (entries.flatMap Prod.snd), 0⟩ := by rw [hbuckets]

/-! ### Counting files -/

theorem foldl_addFile (paths : List String) : paths.foldl Draft.addFile [] = paths.eraseDups := by
  induction paths using List.reverseRecOn with
  | nil => rfl
  | append_singleton paths path ih =>
    rw [List.foldl_append, ih, eraseDups_concat]
    rfl

theorem countFiles_eq_card (occurrences : List Occurrence) :
    countFiles occurrences = (occurrences.map Occurrence.file).toFinset.card := by
  rw [countFiles, ← List.foldl_map, foldl_addFile, length_eraseDups]

/-- A file has an occurrence in the index exactly if it has a well-formed record. Such a record may
have given way to another one, but only to one of the same file. -/
theorem mem_files_build_iff (convention : Convention) (documents : List Document) (file : String) :
    file ∈ ((build convention documents).buckets.flatMap Prod.snd).map Occurrence.file ↔
      file ∈ ((sightings documents).filter Sighting.isValid).map Sighting.path := by
  simp only [buckets_build, List.flatMap_map, List.mem_map, List.mem_flatMap, List.mem_filter]
  constructor
  · rintro ⟨o, ⟨key, -, ho⟩, rfl⟩
    obtain ⟨s, hs, -, hso⟩ := mem_bucketOf_iff.mp ho
    exact ⟨s, ⟨hs.mem, hs.1⟩, (s.file_of_occurrence? hso).symm⟩
  · rintro ⟨s, ⟨hs, hvalid⟩, rfl⟩
    obtain ⟨o, hso⟩ := Option.isSome_iff_exists.mp hvalid
    obtain ⟨t, ht, -, htp⟩ := exists_isFirst convention hs (s.position?_of_occurrence? hso)
    obtain ⟨p, hp, hpo⟩ := Sighting.position?_eq_some_iff.mp htp
    have hmem := ht.mem_bucketOf hp
    refine ⟨p, ⟨t.key convention, mem_keysOf_of_mem_bucketOf hmem, hmem⟩, ?_⟩
    calc p.file = o.file := congrArg Prod.fst hpo
      _ = s.path := s.file_of_occurrence? hso

/-- The files counted while the documents were scanned are those of the occurrences kept. -/
theorem fileCount_build_eq_countFiles (convention : Convention) (documents : List Document) :
    (build convention documents).fileCount =
      countFiles ((build convention documents).buckets.flatMap Prod.snd) := by
  rw [fileCount_build, length_eraseDups, countFiles_eq_card]
  congr 1
  ext file
  rw [List.mem_toFinset, List.mem_toFinset, mem_files_build_iff]

/-! ### The same index -/

theorem nodup_keys_build (convention : Convention) (documents : List Document) :
    (build convention documents).keys.Nodup := by
  rw [keys_build]
  exact nodup_keysOf convention _

/-- From its buckets a built index can be made again, all but the number of records left out. -/
theorem ofEntries_buckets_build (convention : Convention) (documents : List Document) :
    ofEntries (build convention documents).buckets =
      { build convention documents with skippedCount := 0 } := by
  rw [ofEntries_of_nodup (nodup_keys_build convention documents),
    ← fileCount_build_eq_countFiles]

/-- The index made from the buckets of a built index has its keys in their order, its buckets and
its counts, and every search finds the same in both. Only the number of records left out is lost. -/
theorem ofEntries_build_same (convention : Convention) (documents : List Document) :
    let index := build convention documents
    let again := ofEntries index.buckets
    again.keys = index.keys ∧ again.buckets = index.buckets ∧
      (∀ key, again.get? key = index.get? key) ∧
      again.symbolCount = index.symbolCount ∧ again.keyCount = index.keyCount ∧
      again.fileCount = index.fileCount ∧
      (∀ query filter, Query.find again query filter = Query.find index query filter) ∧
      again.skippedCount = 0 := by
  intro index again
  have hagain : again = { index with skippedCount := 0 } :=
    ofEntries_buckets_build convention documents
  rw [hagain]
  exact ⟨rfl, rfl, fun _ => rfl, rfl, rfl, rfl, fun _ _ => rfl, rfl⟩

end SymbolSearch.Index
