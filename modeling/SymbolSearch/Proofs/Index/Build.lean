import Mathlib.Data.Finset.Card
import Mathlib.Data.Finset.Dedup
import SymbolSearch.Index
import SymbolSearch.Proofs.Occurrence.KeepFirst
import SymbolSearch.Proofs.Occurrence.Record

/-!
# What the index of a list of documents holds

The documents are scanned once, record by record, into a draft. After any part of the scan the draft
is a function of the records read so far: its keys are theirs in the order of first appearance, and
each key has its occurrences in scan order, apart for declaration files. Finishing the draft merges
the two sides of a key. They never share a position, because the path of a document decides on its
side.

## Main definitions

* `Index.Sighting` — a record with the path of its document
* `Index.sightings` — the records of all documents in scan order
* `Index.keysOf`, `Index.occurrencesOf` — the keys and the occurrences of one key
* `Index.Draft.of` — the draft that a part of the scan has to give

## Main results

* `Index.Draft.addRecord_of` — one record more
* `Index.build_eq_finish` — the index is the finished draft of the whole scan
* `Index.build_eq_specification` — the index, spelled out
-/

namespace SymbolSearch.Index

/-- A record with the path of the document that holds it. -/
structure Sighting where
  /-- The path of the document. -/
  path : String
  /-- The record. -/
  record : Record

namespace Sighting

/-- The occurrence that the record states, if it is well-formed. -/
def occurrence? (s : Sighting) : Option Occurrence :=
  Occurrence.ofRecord? s.path s.record (Descriptor.parse s.record.symbol).kind

/-- Whether the record is well-formed. -/
def isValid (s : Sighting) : Bool := s.occurrence?.isSome

/-- The key of the record's symbol. -/
def key (convention : Convention) (s : Sighting) : Key :=
  Key.ofDescriptor convention (Descriptor.parse s.record.symbol)

theorem restates_of_occurrence? {s : Sighting} {o : Occurrence} (h : s.occurrence? = some o) :
    o.Restates s.path s.record (Descriptor.parse s.record.symbol).kind :=
  Occurrence.ofRecord?_eq_some_iff.mp h

theorem file_of_occurrence? {s : Sighting} {o : Occurrence} (h : s.occurrence? = some o) :
    o.file = s.path :=
  (s.restates_of_occurrence? h).file_eq

end Sighting

/-- The records of the documents, in the order they are scanned. -/
def sightings (documents : List Document) : List Sighting :=
  documents.flatMap fun document => document.records.map (Sighting.mk document.path)

/-- The keys of the well-formed records, each once, in the order of first appearance. -/
def keysOf (convention : Convention) (scan : List Sighting) : List Key :=
  ((scan.filter Sighting.isValid).map (Sighting.key convention)).eraseDups

/-- The occurrences under a key in declaration files, or in other files, in scan order. -/
def occurrencesOf (convention : Convention) (scan : List Sighting) (key : Key)
    (inDeclaration : Bool) : List Occurrence :=
  (scan.filter fun s =>
    s.key convention == key && convention.isDeclaration s.path == inDeclaration).filterMap
      Sighting.occurrence?

/-- The occurrences under a key, those in declaration files apart. -/
def variantsOf (convention : Convention) (scan : List Sighting) (key : Key) : Variants :=
  ⟨occurrencesOf convention scan key false, occurrencesOf convention scan key true⟩

/-- The draft after a part of the scan. -/
def Draft.of (convention : Convention) (scan : List Sighting) : Draft where
  variants := (keysOf convention scan).map fun key => (key, variantsOf convention scan key)
  files := ((scan.filter Sighting.isValid).map Sighting.path).eraseDups
  skipped := scan.countP fun s => !s.isValid

variable {convention : Convention} {scan : List Sighting} {s : Sighting} {o : Occurrence}
  {key : Key}

/-! ### Lists without duplicates -/

theorem eraseDups_concat {α : Type*} [BEq α] [LawfulBEq α] (l : List α) (a : α) :
    (l ++ [a]).eraseDups =
      if l.eraseDups.contains a then l.eraseDups else l.eraseDups ++ [a] := by
  rw [List.eraseDups_append]
  by_cases h : a ∈ l <;> simp [List.removeAll, h, List.eraseDups_cons]

theorem nodup_eraseDups {α : Type*} [BEq α] [LawfulBEq α] (l : List α) : l.eraseDups.Nodup := by
  induction l using List.reverseRecOn with
  | nil => exact List.nodup_nil
  | append_singleton l a ih =>
    rw [eraseDups_concat]
    split
    · exact ih
    · next h =>
      have hnew : a ∉ l.eraseDups := fun hmem => h (List.contains_iff_mem.mpr hmem)
      exact List.nodup_append.mpr ⟨ih, List.nodup_singleton a, by grind⟩

theorem length_eraseDups {α : Type*} [DecidableEq α] (l : List α) :
    l.eraseDups.length = l.toFinset.card := by
  rw [← List.toFinset_card_of_nodup (nodup_eraseDups l)]
  congr 1
  ext a
  simp

/-! ### One record more

A malformed record only counts as skipped. A well-formed one goes to the end of one side of its key,
and its key goes behind the other keys if it is new. -/

theorem nodup_keysOf (convention : Convention) (scan : List Sighting) :
    (keysOf convention scan).Nodup :=
  nodup_eraseDups _

theorem keysOf_concat_of_isValid (h : s.isValid = true) :
    keysOf convention (scan ++ [s]) =
      if (keysOf convention scan).contains (s.key convention) then keysOf convention scan
      else keysOf convention scan ++ [s.key convention] := by
  rw [keysOf, List.filter_append, List.filter_cons_of_pos h, List.filter_nil, List.map_append,
    List.map_singleton, eraseDups_concat]
  rfl

theorem occurrencesOf_concat (key : Key) (inDeclaration : Bool) :
    occurrencesOf convention (scan ++ [s]) key inDeclaration =
      occurrencesOf convention scan key inDeclaration ++
        if s.key convention = key ∧ convention.isDeclaration s.path = inDeclaration then
          s.occurrence?.toList
        else [] := by
  rw [occurrencesOf, List.filter_append, List.filterMap_append, ← occurrencesOf]
  congr 1
  split
  · next h =>
    rw [List.filter_cons_of_pos (by simpa using h)]
    cases hs : s.occurrence? <;> simp [hs]
  · next h => rw [List.filter_cons_of_neg (by simpa using h)]; rfl

theorem variantsOf_concat (h : s.occurrence? = some o) (key : Key) :
    variantsOf convention (scan ++ [s]) key =
      if s.key convention = key then
        (variantsOf convention scan key).add (convention.isDeclaration s.path) o
      else variantsOf convention scan key := by
  unfold variantsOf Variants.add
  rw [occurrencesOf_concat, occurrencesOf_concat, h]
  by_cases hkey : s.key convention = key <;> by_cases hd : convention.isDeclaration s.path <;>
    simp [hkey, hd]

theorem variantsOf_eq_empty (h : key ∉ keysOf convention scan) :
    variantsOf convention scan key = Variants.empty := by
  have hnone : ∀ inDeclaration, occurrencesOf convention scan key inDeclaration = [] := by
    intro inDeclaration
    rw [occurrencesOf, List.filterMap_eq_nil_iff]
    intro s hs
    obtain ⟨hmem, hkey⟩ := List.mem_filter.mp hs
    -- A well-formed record of this key would put the key into the list.
    by_contra hsome
    apply h
    rw [keysOf, List.mem_eraseDups]
    refine List.mem_map.mpr ⟨s, List.mem_filter.mpr ⟨hmem, ?_⟩, ?_⟩
    · exact Option.isSome_iff_ne_none.mpr hsome
    · exact (by simpa using hkey : s.key convention = key ∧ _).1
  rw [variantsOf, hnone, hnone]
  rfl

/-- Changing one key of a list of keys with values: the key's value changes in place, and a key that
is not there is put behind the others. -/
theorem update_map {keys : List Key} (value : Key → Variants) (f : Variants → Variants) (key : Key)
    (hnodup : keys.Nodup) :
    Draft.update key f (keys.map fun k => (k, value k)) =
      (keys.map fun k => (k, if key = k then f (value k) else value k)) ++
        if keys.contains key then [] else [(key, f Variants.empty)] := by
  induction keys with
  | nil => rfl
  | cons k rest ih =>
    obtain ⟨hk, hrest⟩ := List.nodup_cons.mp hnodup
    rw [List.map_cons, Draft.update]
    by_cases h : k = key
    · subst h
      have hsame : ∀ k' ∈ rest,
          (k', value k') = (k', if k = k' then f (value k') else value k') := by
        intro k' hk'
        rw [if_neg fun heq : k = k' => hk (heq ▸ hk')]
      rw [List.map_congr_left hsame]
      simp
    · rw [if_neg h, ih hrest]
      have hne : key ≠ k := fun heq => h heq.symm
      simp [hne]

namespace Draft

/-- A well-formed record takes its place in the variants of the records before it. -/
theorem update_variants (h : s.occurrence? = some o) :
    update (s.key convention) (fun v => v.add (convention.isDeclaration s.path) o)
        (Draft.of convention scan).variants =
      (Draft.of convention (scan ++ [s])).variants := by
  have hvalid : s.isValid = true := by simp [Sighting.isValid, h]
  simp only [Draft.of]
  rw [update_map _ _ _ (nodup_keysOf convention scan), keysOf_concat_of_isValid hvalid]
  simp only [variantsOf_concat h]
  split
  · rw [List.append_nil]
  · next hc =>
    have hnew : s.key convention ∉ keysOf convention scan := by simpa using hc
    rw [List.map_append, List.map_singleton, if_pos rfl, variantsOf_eq_empty hnew]

/-- The file of a well-formed record is counted once. -/
theorem addFile_files (h : s.isValid = true) :
    addFile (Draft.of convention scan).files s.path =
      (Draft.of convention (scan ++ [s])).files := by
  simp only [Draft.of]
  rw [List.filter_append, List.filter_cons_of_pos h, List.filter_nil, List.map_append,
    List.map_singleton, eraseDups_concat, addFile]

/-- Reading one more record gives the draft of the records with that one behind them. -/
theorem addRecord_of (convention : Convention) (scan : List Sighting) (s : Sighting) :
    addRecord convention s.path (Draft.of convention scan) s.record =
      Draft.of convention (scan ++ [s]) := by
  unfold addRecord
  cases ho : s.occurrence? with
  | none =>
    have hrecord : Occurrence.ofRecord? s.path s.record (Descriptor.parse s.record.symbol).kind =
        none := ho
    have hinvalid : s.isValid = false := by simp [Sighting.isValid, ho]
    have hvariants : ∀ key, variantsOf convention (scan ++ [s]) key =
        variantsOf convention scan key := by
      intro key
      simp [variantsOf, occurrencesOf_concat, ho]
    simp [hrecord, Draft.of, keysOf, hinvalid, hvariants, List.countP_append]
  | some o =>
    have hrecord : Occurrence.ofRecord? s.path s.record (Descriptor.parse s.record.symbol).kind =
        some o := ho
    have hvalid : s.isValid = true := by simp [Sighting.isValid, ho]
    have hskipped : (Draft.of convention scan).skipped =
        (Draft.of convention (scan ++ [s])).skipped := by
      simp [Draft.of, hvalid, List.countP_append]
    simp only [hrecord]
    change Draft.mk (update (s.key convention) _ _) _ _ = _
    rw [update_variants ho, addFile_files hvalid, hskipped]

/-- The draft of a scan is what reading its records one after the other gives. -/
theorem foldl_addRecord (convention : Convention) (scan : List Sighting) :
    scan.foldl (fun draft s => addRecord convention s.path draft s.record) Draft.empty =
      Draft.of convention scan := by
  induction scan using List.reverseRecOn with
  | nil => rfl
  | append_singleton scan s ih => rw [List.foldl_append, ih, List.foldl_cons, List.foldl_nil,
      addRecord_of]

end Draft

/-! ### The whole scan -/

/-- The index is the finished draft of the records of all documents. -/
theorem build_eq_finish (convention : Convention) (documents : List Document) :
    build convention documents = (Draft.of convention (sightings documents)).finish := by
  rw [build, ← Draft.foldl_addRecord, sightings, List.foldl_flatMap]
  simp only [List.foldl_map]
  rfl

/-- The side of an occurrence is told by its file. -/
theorem isDeclaration_file_of_mem {inDeclaration : Bool}
    (h : o ∈ occurrencesOf convention scan key inDeclaration) :
    convention.isDeclaration o.file = inDeclaration := by
  obtain ⟨s, hs, ho⟩ := List.mem_filterMap.mp h
  have hside := (List.mem_filter.mp hs).2
  rw [s.file_of_occurrence? ho]
  exact (by simpa using hside : _ ∧ convention.isDeclaration s.path = inDeclaration).2

/-- Merging the two sides of a key never drops an occurrence of one for one of the other. -/
theorem merged_variantsOf (convention : Convention) (scan : List Sighting) (key : Key) :
    (variantsOf convention scan key).merged =
      Occurrence.keepFirst (occurrencesOf convention scan key false) ++
        Occurrence.keepFirst (occurrencesOf convention scan key true) := by
  apply Occurrence.keepFirst_append_of_disjoint
  intro o ho p hp heq
  have hfile : o.file = p.file := congrArg Prod.fst heq
  have hfalse := isDeclaration_file_of_mem ho
  rw [hfile, isDeclaration_file_of_mem hp] at hfalse
  cases hfalse

/-- The index of a list of documents: the keys of the well-formed records in the order of first
appearance, under each key the first occurrence at each position in implementation files and then
those in declaration files, and the numbers of files with a well-formed record and of records that
are not well-formed. -/
theorem build_eq_specification (convention : Convention) (documents : List Document) :
    let scan := sightings documents
    let valid := scan.filter Sighting.isValid
    let index := build convention documents
    index.buckets = (valid.map (Sighting.key convention)).eraseDups.map (fun key =>
        (key,
          (occurrencesOf convention scan key false).eraseDupsBy Occurrence.samePosition ++
            (occurrencesOf convention scan key true).eraseDupsBy Occurrence.samePosition)) ∧
      (index.buckets.map Prod.fst).Nodup ∧
      index.skippedCount = scan.countP (fun s => !s.isValid) ∧
      index.fileCount = (valid.map Sighting.path).toFinset.card := by
  intro scan valid index
  have hindex : index = (Draft.of convention scan).finish := build_eq_finish convention documents
  have hbuckets : index.buckets = (keysOf convention scan).map fun key =>
      (key, (variantsOf convention scan key).merged) := by
    rw [hindex, Draft.finish, Draft.of, List.map_map]
    rfl
  refine ⟨?_, ?_, ?_, ?_⟩
  · rw [hbuckets]
    simp only [merged_variantsOf, Occurrence.keepFirst_eq_eraseDupsBy]
    rfl
  · rw [hbuckets, List.map_map]
    change ((keysOf convention scan).map id).Nodup
    rw [List.map_id]
    exact nodup_keysOf convention scan
  · rw [hindex]
    rfl
  · rw [hindex]
    exact length_eraseDups _

end SymbolSearch.Index
