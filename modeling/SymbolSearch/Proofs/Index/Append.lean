import SymbolSearch.Proofs.Index.Bucket

/-!
# More documents

A list of documents can be indexed in two parts. The keys of the second part go behind those of the
first, unless they are there already, and each bucket is merged from the buckets of the two parts.
Merging needs the implementation files of both parts before the declaration files of both, so the
buckets are taken apart by the files of their occurrences first. That a part was merged before does
not matter: the firsts of the firsts are the firsts.

## Main definitions

* `Index.keys` — the keys of an index
* `Index.bucket` — the bucket under a key, empty for a key that is not there

## Main results

* `Index.keysOf_append` — the keys of two parts of a scan
* `Index.onSide_bucketOf` — one side of a bucket is made of the occurrences on that side alone
* `Index.bucketOf_append` — a bucket from its two parts
* `Index.bucketOf_sublist_append` — a bucket keeps its occurrences and their order when it grows
* `Index.build_append` — the index of two lists of documents
-/

namespace SymbolSearch.Index

/-- The keys of an index, in order. -/
def keys (index : Index) : List Key := index.buckets.map Prod.fst

/-- The bucket under a key, empty for a key that is not there. -/
def bucket (index : Index) (key : Key) : List Occurrence := (index.get? key).getD []

/-! ### Looking up what was built -/

theorem keys_build (convention : Convention) (documents : List Document) :
    (build convention documents).keys = keysOf convention (sightings documents) := by
  rw [keys, buckets_build, List.map_map]
  exact List.map_id _

theorem lookup_map_pair (value : Key → List Occurrence) (keys : List Key) (key : Key) :
    (keys.map fun k => (k, value k)).lookup key = if key ∈ keys then some (value key) else none := by
  induction keys with
  | nil => rfl
  | cons k keys ih =>
    rw [List.map_cons, List.lookup_cons, ih]
    by_cases h : key = k
    · subst h
      simp
    · have hne : (key == k) = false := by simpa using h
      simp [hne, h]

theorem bucket_build (convention : Convention) (documents : List Document) (key : Key) :
    (build convention documents).bucket key = bucketOf convention (sightings documents) key := by
  rw [bucket, get?, buckets_build, lookup_map_pair]
  split
  · rfl
  · next h => exact (bucketOf_eq_nil h).symm

theorem skippedCount_build (convention : Convention) (documents : List Document) :
    (build convention documents).skippedCount =
      (sightings documents).countP fun s => !s.isValid := by
  rw [build_eq_finish]
  rfl

theorem sightings_append (a b : List Document) : sightings (a ++ b) = sightings a ++ sightings b :=
  List.flatMap_append

/-! ### Two parts of a scan -/

theorem filter_eraseDups {α : Type*} [BEq α] [LawfulBEq α] (p : α → Bool) (l : List α) :
    (l.filter p).eraseDups = l.eraseDups.filter p := by
  -- From the end, since a last element is dropped exactly if it came before.
  induction l using List.reverseRecOn with
  | nil => rfl
  | append_singleton l a ih =>
    rw [List.filter_append, eraseDups_concat]
    by_cases ha : p a = true
    · rw [List.filter_cons_of_pos ha, List.filter_nil, eraseDups_concat, ih]
      have hcontains : (l.eraseDups.filter p).contains a = l.eraseDups.contains a := by
        rw [Bool.eq_iff_iff, List.contains_iff_mem, List.contains_iff_mem, List.mem_filter]
        exact and_iff_left ha
      rw [hcontains]
      split
      · rfl
      · rw [List.filter_append, List.filter_cons_of_pos ha, List.filter_nil]
    · -- An element that is filtered out changes neither side.
      rw [List.filter_cons_of_neg ha, List.filter_nil, List.append_nil, ih]
      split
      · rfl
      · rw [List.filter_append, List.filter_cons_of_neg ha, List.filter_nil, List.append_nil]

/-- The keys of the second part go behind those of the first, unless they are there already. -/
theorem keysOf_append (convention : Convention) (a b : List Sighting) :
    keysOf convention (a ++ b) = keysOf convention a ++
      (keysOf convention b).filter fun key => !(keysOf convention a).contains key := by
  rw [keysOf, List.filter_append, List.map_append, List.eraseDups_append, List.removeAll,
    filter_eraseDups]
  congr 1
  refine List.filter_congr fun key _ => ?_
  congr 1
  rw [Bool.eq_iff_iff, List.elem_iff, List.contains_iff_mem, keysOf, List.mem_eraseDups]

theorem occurrencesOf_append (convention : Convention) (a b : List Sighting) (key : Key)
    (inDeclaration : Bool) :
    occurrencesOf convention (a ++ b) key inDeclaration =
      occurrencesOf convention a key inDeclaration ++
        occurrencesOf convention b key inDeclaration := by
  rw [occurrencesOf, List.filter_append, List.filterMap_append]
  rfl

/-- What a bucket has on one side comes from the occurrences on that side alone. -/
theorem onSide_bucketOf (convention : Convention) (scan : List Sighting) (key : Key)
    (inDeclaration : Bool) :
    onSide convention inDeclaration (bucketOf convention scan key) =
      Occurrence.keepFirst (occurrencesOf convention scan key inDeclaration) := by
  rw [bucketOf_eq_append, occurrencesOf_eq_filter, ← onSide, keepFirst_onSide]
  -- Of the two sides that make up the bucket one is taken whole and the other not at all.
  simp only [onSide, List.filter_append, List.filter_filter]
  cases inDeclaration <;> simp

/-- A bucket is merged from the sides of its two parts, though each part was merged before. -/
theorem bucketOf_append (convention : Convention) (a b : List Sighting) (key : Key) :
    bucketOf convention (a ++ b) key =
      Occurrence.merge
        (onSide convention false (bucketOf convention a key) ++
          onSide convention false (bucketOf convention b key))
        (onSide convention true (bucketOf convention a key) ++
          onSide convention true (bucketOf convention b key)) := by
  simp only [onSide_bucketOf, Occurrence.merge]
  rw [bucketOf, Variants.merged, variantsOf, Occurrence.merge, occurrencesOf_append,
    occurrencesOf_append]
  -- Side by side, the parts and the parts that were merged before have the same firsts.
  apply Occurrence.keepFirst_append_congr
  all_goals exact (Occurrence.keepFirst_append_keepFirst _ _).symm

/-- A bucket that grows keeps its occurrences and their order, though new ones may come between the
two sides. -/
theorem bucketOf_sublist_append (convention : Convention) (a b : List Sighting) (key : Key) :
    (bucketOf convention a key).Sublist (bucketOf convention (a ++ b) key) := by
  rw [bucketOf, bucketOf, merged_variantsOf, merged_variantsOf, occurrencesOf_append,
    occurrencesOf_append, Occurrence.keepFirst_append, Occurrence.keepFirst_append]
  -- Each side of the old bucket starts the same side of the new one.
  exact (List.sublist_append_left _ _).append (List.sublist_append_left _ _)

/-! ### Two lists of documents -/

/-- The index of two lists of documents, from the indexes of the two. Its keys are those of the first
and then those that only the second has. A bucket is merged from the implementation files of both
and the declaration files of both. -/
theorem build_append (convention : Convention) (a b : List Document) :
    let x := build convention a
    let y := build convention b
    let z := build convention (a ++ b)
    z.keys = x.keys ++ y.keys.filter (fun key => !x.keys.contains key) ∧
      (∀ key, z.bucket key =
        Occurrence.merge
          (onSide convention false (x.bucket key) ++ onSide convention false (y.bucket key))
          (onSide convention true (x.bucket key) ++ onSide convention true (y.bucket key))) ∧
      z.skippedCount = x.skippedCount + y.skippedCount := by
  intro x y z
  refine ⟨?_, ?_, ?_⟩
  · simp only [x, y, z, keys_build, sightings_append]
    exact keysOf_append convention _ _
  · intro key
    simp only [x, y, z, bucket_build, sightings_append]
    exact bucketOf_append convention _ _ key
  · simp only [x, y, z, skippedCount_build, sightings_append]
    exact List.countP_append

end SymbolSearch.Index
