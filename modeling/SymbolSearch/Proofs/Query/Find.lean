import SymbolSearch.Proofs.Index.Bucket
import SymbolSearch.Query.Search

/-!
# What a search in a built index finds

The hits of a query are occurrences of the index, each from the bucket of its own key. A bucket is
found as a whole or not at all, and the filters for folder and kind then look at one occurrence at a
time. For a plain query the key alone decides, so nothing that was merged into a bucket can be lost
or come in addition: the positions found are those of the records with that name.

## Main definitions

* `Query.LiesIn` — a file lies in a folder

## Main results

* `Query.find_of_ne`, `Query.find_eq_flatMap` — the hits of a search, bucket by bucket
* `Query.mem_find_build_iff` — the hits of a search in a built index
* `Query.pairwise_find_build` — hits under one key start at different positions
* `Query.find_plain_exact` — a plain query finds the positions of the records with its name
-/

namespace SymbolSearch.Query

open Index

variable {convention : Convention} {documents : List Document} {query : String} {filter : Filter}
  {hit : Hit}

/-! ### Bucket by bucket -/

/-- The hits in one bucket. -/
def hitsIn (query : String) (filter : Filter) (key : Key) (bucket : List Occurrence) : List Hit :=
  if selects query key bucket && admitsBucket filter bucket then
    (bucket.filter (admits filter)).map Hit.ofOccurrence
  else []

theorem find_of_ne (hne : query ≠ "") (index : Index) :
    find index query filter = index.buckets.flatMap fun b => hitsIn query filter b.1 b.2 := by
  have hempty : query.isEmpty = false := by simpa using hne
  rw [find, hempty, if_neg Bool.false_ne_true]
  rfl

/-- The empty query is one for which no bucket is looked at. -/
theorem find_eq_flatMap (index : Index) (query : String) (filter : Filter) :
    find index query filter =
      (if query = "" then [] else index.buckets).flatMap fun b => hitsIn query filter b.1 b.2 := by
  by_cases hempty : query = ""
  · rw [if_pos hempty, hempty]
    rfl
  · rw [if_neg hempty]
    exact find_of_ne hempty index

theorem find_build_of_ne (hne : query ≠ "") :
    find (build convention documents) query filter =
      (keysOf convention (sightings documents)).flatMap fun key =>
        hitsIn query filter key (bucketOf convention (sightings documents) key) := by
  rw [find_of_ne hne, buckets_build, List.flatMap_map]

theorem mem_hitsIn_iff {key : Key} {bucket : List Occurrence} :
    hit ∈ hitsIn query filter key bucket ↔
      hit = Hit.ofOccurrence hit.occurrence ∧ hit.occurrence ∈ bucket ∧
        selects query key bucket = true ∧ admitsBucket filter bucket = true ∧
        admits filter hit.occurrence = true := by
  unfold hitsIn
  split
  · next hselected =>
    rw [Bool.and_eq_true] at hselected
    simp only [List.mem_map, List.mem_filter, hselected, true_and]
    constructor
    · rintro ⟨o, ho, rfl⟩
      exact ⟨rfl, ho⟩
    · rintro ⟨hhit, ho⟩
      exact ⟨hit.occurrence, ho, hhit.symm⟩
  · next hselected =>
    rw [Bool.and_eq_true] at hselected
    simp only [List.not_mem_nil, false_iff]
    rintro ⟨-, -, hselects, hbucket, -⟩
    exact hselected ⟨hselects, hbucket⟩

/-- A hit is an occurrence of the index whose bucket the query selects. -/
theorem mem_find_build_iff (hne : query ≠ "") :
    hit ∈ find (build convention documents) query filter ↔
      hit ∈ hitsIn query filter (hit.occurrence.key convention)
        (bucketOf convention (sightings documents) (hit.occurrence.key convention)) := by
  rw [find_build_of_ne hne, List.mem_flatMap]
  constructor
  · rintro ⟨key, -, hhit⟩
    -- The occurrence tells the key of the bucket it is in.
    obtain rfl := key_of_mem_bucketOf (mem_hitsIn_iff.mp hhit).2.1
    exact hhit
  · intro hhit
    exact ⟨_, mem_keysOf_of_mem_bucketOf (mem_hitsIn_iff.mp hhit).2.1, hhit⟩

theorem pairwise_hitsIn {key : Key} {bucket : List Occurrence}
    (h : (bucket.map Occurrence.position).Nodup) :
    (hitsIn query filter key bucket).Pairwise fun a b =>
      a.occurrence.position ≠ b.occurrence.position := by
  unfold hitsIn
  split
  · rw [List.Nodup, List.pairwise_map] at h
    rw [List.pairwise_map]
    exact h.filter _
  · exact List.Pairwise.nil

/-- Hits under one key start at different positions. -/
theorem pairwise_find_build (hne : query ≠ "") :
    (find (build convention documents) query filter).Pairwise fun a b =>
      a.occurrence.key convention = b.occurrence.key convention →
        a.occurrence.position ≠ b.occurrence.position := by
  rw [find_build_of_ne hne, List.pairwise_flatMap]
  constructor
  · intro key _
    refine (pairwise_hitsIn (nodup_position_bucketOf convention _ key)).imp ?_
    intro a b hpos _
    exact hpos
  · -- Hits from two buckets have the keys of these buckets, which differ.
    refine (nodup_keysOf convention (sightings documents)).imp ?_
    intro key key' hkeys a ha b hb heq
    rw [key_of_mem_bucketOf (mem_hitsIn_iff.mp ha).2.1,
      key_of_mem_bucketOf (mem_hitsIn_iff.mp hb).2.1] at heq
    exact absurd heq hkeys

/-! ### Folders -/

/-- A file lies in a folder when its path starts with the folder and the slash behind it, which the
folder may bring along. The folder without a name holds every file. -/
def LiesIn (folder file : String) : Prop :=
  folder = "" ∨
    (if folder.toList.getLast? = some '/' then folder.toList else folder.toList ++ ['/']) <+:
      file.toList

theorem inFolder_iff {folder : Option String} {file : String} :
    inFolder folder file = true ↔ ∀ f ∈ folder, LiesIn f file := by
  cases folder with
  | none => simp [inFolder]
  | some f =>
    have hne : ∀ c, f.toList.getLast? = some c → f.toList ≠ [] := by
      intro c hlast hnil
      simp [hnil] at hlast
    simp only [inFolder, Option.mem_some_iff, forall_eq', LiesIn, List.isPrefixOf_iff_prefix,
      folderStart, ← String.toList_eq_nil_iff]
    -- The folder has no last character, or ends in a slash, or needs one.
    split
    · next hlast =>
      rw [List.getLast?_eq_none_iff] at hlast
      simp [hlast]
    · next hlast => simp [hlast, hne _ hlast]
    · next c hslash hlast =>
      have hc : c ≠ '/' := fun heq => hslash (heq ▸ rfl)
      simp [hlast, hne _ hlast, hc]

/-! ### Plain queries -/

theorem selects_plain {key : Key} {bucket : List Occurrence} (hdot : '.' ∉ query.toList)
    (hhash : '#' ∉ query.toList) : selects query key bucket = true ↔ key.name = query := by
  have hplain : isQualified query.toList = false := by simp [isQualified, hdot, hhash]
  rw [selects, hplain, if_neg Bool.false_ne_true, beq_iff_eq]

/-- The symbol of a record is known by `name`, and the record is about a file in the folder. -/
def IsNamed (name : String) (folder : Option String) (s : Sighting) : Prop :=
  (Descriptor.parse s.record.symbol).displayName = name ∧ ∀ f ∈ folder, LiesIn f s.path

theorem mem_find_plain_iff (hne : query ≠ "") (hdot : '.' ∉ query.toList)
    (hhash : '#' ∉ query.toList) {folder : Option String} :
    hit ∈ find (build convention documents) query { Filter.any with folder } ↔
      ∃ s o, IsFirst convention (sightings documents) s ∧ IsNamed query folder s ∧
        s.occurrence? = some o ∧ hit = Hit.ofOccurrence o := by
  rw [mem_find_build_iff hne, mem_hitsIn_iff, mem_bucketOf_iff, selects_plain hdot hhash]
  simp only [admitsBucket, Filter.any, admits, hasKind, Bool.and_true, inFolder_iff]
  constructor
  · rintro ⟨hhit, ⟨s, hs, hkey, ho⟩, hname, -, hfolder⟩
    rw [s.file_of_occurrence? ho] at hfolder
    rw [← hkey] at hname
    exact ⟨s, hit.occurrence, hs, ⟨hname, hfolder⟩, ho, hhit⟩
  · rintro ⟨s, o, hs, ⟨hname, hfolder⟩, ho, rfl⟩
    have hkey := s.key_of_occurrence? convention ho
    rw [← s.file_of_occurrence? ho] at hfolder
    refine ⟨rfl, ⟨s, hs, hkey.symm, ho⟩, ?_, trivial, hfolder⟩
    exact (congrArg Key.name hkey).trans hname

/-- A plain query finds exactly the positions of the well-formed records with its name in the
folder. Each hit is the occurrence of such a record, and hits under one key start at different
positions. -/
theorem find_plain_exact (convention : Convention) (documents : List Document) {query : String}
    (hne : query ≠ "") (hdot : '.' ∉ query.toList) (hhash : '#' ∉ query.toList)
    (folder : Option String) :
    let hits := find (build convention documents) query { Filter.any with folder }
    (∀ p, (∃ hit ∈ hits, hit.occurrence.position = p) ↔
        ∃ s ∈ sightings documents, IsNamed query folder s ∧ s.position? = some p) ∧
      (∀ hit ∈ hits, ∃ s ∈ sightings documents, ∃ o, IsNamed query folder s ∧
        s.occurrence? = some o ∧ hit = Hit.ofOccurrence o) ∧
      hits.Pairwise fun a b => a.occurrence.key convention = b.occurrence.key convention →
        a.occurrence.position ≠ b.occurrence.position := by
  intro hits
  have hmem : ∀ {hit}, hit ∈ hits ↔ _ := mem_find_plain_iff hne hdot hhash
  refine ⟨fun p => ⟨?_, ?_⟩, ?_, pairwise_find_build hne⟩
  · rintro ⟨hit, hhit, rfl⟩
    obtain ⟨s, o, hs, hnamed, ho, rfl⟩ := hmem.mp hhit
    exact ⟨s, hs.mem, hnamed, s.position?_of_occurrence? ho⟩
  · rintro ⟨s, hs, ⟨hname, hfolder⟩, hp⟩
    -- The position of a record that was merged away is that of an earlier one under its key.
    obtain ⟨t, ht, hkey, htp⟩ := exists_isFirst convention hs hp
    obtain ⟨o, ho, hop⟩ := Sighting.position?_eq_some_iff.mp htp
    have hpath : t.path = s.path := (t.path_of_position? htp).trans (s.path_of_position? hp).symm
    have hnamed : IsNamed query folder t :=
      ⟨(congrArg Key.name hkey).trans hname, hpath ▸ hfolder⟩
    exact ⟨_, hmem.mpr ⟨t, o, ht, hnamed, ho, rfl⟩, hop⟩
  · intro hit hhit
    obtain ⟨s, o, hs, hnamed, ho, rfl⟩ := hmem.mp hhit
    exact ⟨s, hs.mem, o, hnamed, ho, rfl⟩

/-- A symbol of the file `src/a.ts`. -/
def sampleSymbol (chain : String) : String := "scip npm app 1.0 src/\x60a.ts\x60/" ++ chain

/-- Two members of one name at one place. -/
def sharedPlace : List Document :=
  [⟨"src/a.ts",
    [⟨sampleSymbol "B#name.", 1, [1, 2, 6], none⟩, ⟨sampleSymbol "A#name.", 1, [1, 2, 6], none⟩]⟩]

theorem find_plain_exact_sharedPlace :
    ∃ hit ∈ find (build Convention.standard sharedPlace) "name" ⟨none, some "src", none⟩,
      hit.occurrence.position = ("src/a.ts", 1, 2) :=
  ((find_plain_exact Convention.standard sharedPlace (by decide) (by decide) (by decide)
    (some "src")).1 _).mpr
    ⟨⟨"src/a.ts", ⟨sampleSymbol "A#name.", 1, [1, 2, 6], none⟩⟩, by simp [sightings, sharedPlace],
      ⟨by decide, fun f hf => Option.mem_some_iff.mp hf ▸ Or.inr (by decide)⟩, by decide⟩

end SymbolSearch.Query
