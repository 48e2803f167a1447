import SymbolSearch.Proofs.Index.Build

/-!
# Buckets of an index

The bucket of a key holds, of the well-formed records under that key, those that are the first at
their position. Which side a record is on plays no part in this: records at one position are on one
side, so first on its side is first in the scan. A record that is not first has one before it that
is, under the same key and at the same position.

## Main definitions

* `Occurrence.key` — the key of an occurrence
* `Index.bucketOf` — the bucket under a key
* `Index.onSide` — the occurrences in declaration files, or those in other files
* `Index.Sighting.position?` — where a well-formed record starts
* `Index.IsFirst` — a record is well-formed and the first of its key at its position

## Main results

* `Index.buckets_build` — the index has the bucket of each key
* `Index.bucketOf_eq_append` — a bucket by its two sides
* `Index.mem_bucketOf_iff` — a bucket holds the first records of its key
* `Index.exists_isFirst` — every well-formed record has a first record at its position
-/

namespace SymbolSearch

/-- The key of an occurrence: that of its symbol. -/
def Occurrence.key (convention : Convention) (o : Occurrence) : Key :=
  Key.ofDescriptor convention (Descriptor.parse o.symbol)

namespace Index

namespace Sighting

/-- Where a well-formed record starts. -/
def position? (s : Sighting) : Option (String × UInt32 × UInt32) :=
  s.occurrence?.map Occurrence.position

theorem position?_eq_some_iff {s : Sighting} {p : String × UInt32 × UInt32} :
    s.position? = some p ↔ ∃ o, s.occurrence? = some o ∧ o.position = p :=
  Option.map_eq_some_iff

theorem position?_of_occurrence? {s : Sighting} {o : Occurrence} (h : s.occurrence? = some o) :
    s.position? = some o.position :=
  position?_eq_some_iff.mpr ⟨o, h, rfl⟩

theorem path_of_position? {s : Sighting} {p : String × UInt32 × UInt32}
    (h : s.position? = some p) : s.path = p.1 := by
  obtain ⟨o, ho, rfl⟩ := position?_eq_some_iff.mp h
  exact (s.file_of_occurrence? ho).symm

theorem symbol_of_occurrence? {s : Sighting} {o : Occurrence} (h : s.occurrence? = some o) :
    o.symbol = s.record.symbol :=
  (s.restates_of_occurrence? h).symbol_eq

theorem kind_of_occurrence? {s : Sighting} {o : Occurrence} (h : s.occurrence? = some o) :
    o.kind = some (s.record.kind.getD (Descriptor.parse s.record.symbol).kind) :=
  (s.restates_of_occurrence? h).kind_eq

theorem key_of_occurrence? {s : Sighting} {o : Occurrence} (convention : Convention)
    (h : s.occurrence? = some o) : o.key convention = s.key convention := by
  rw [Occurrence.key, s.symbol_of_occurrence? h]
  rfl

end Sighting

/-- The occurrences that are kept under a key. -/
def bucketOf (convention : Convention) (scan : List Sighting) (key : Key) : List Occurrence :=
  (variantsOf convention scan key).merged

/-- A record is well-formed, and no well-formed record of its key that was scanned before it starts
at the same position. -/
def IsFirst (convention : Convention) (scan : List Sighting) (s : Sighting) : Prop :=
  s.isValid = true ∧ ∃ before after, scan = before ++ s :: after ∧
    ∀ r ∈ before, r.key convention = s.key convention → r.position? ≠ s.position?

variable {convention : Convention} {scan : List Sighting} {s : Sighting} {o : Occurrence}
  {key : Key}

theorem buckets_build (convention : Convention) (documents : List Document) :
    (build convention documents).buckets =
      (keysOf convention (sightings documents)).map fun key =>
        (key, bucketOf convention (sightings documents) key) := by
  rw [build_eq_finish, Draft.finish, Draft.of, List.map_map]
  rfl

theorem eq_bucketOf_of_mem_buckets {documents : List Document} {b : Key × List Occurrence}
    (h : b ∈ (build convention documents).buckets) :
    b.2 = bucketOf convention (sightings documents) b.1 := by
  rw [buckets_build] at h
  obtain ⟨key, -, rfl⟩ := List.mem_map.mp h
  rfl

/-! ### Both sides of a key together -/

/-- The occurrences under a key, in scan order. -/
def occurrencesUnder (convention : Convention) (scan : List Sighting) (key : Key) :
    List Occurrence :=
  scan.filterMap fun s => if s.key convention = key then s.occurrence? else none

theorem occurrencesOf_eq_filter (convention : Convention) (scan : List Sighting) (key : Key)
    (inDeclaration : Bool) :
    occurrencesOf convention scan key inDeclaration =
      (occurrencesUnder convention scan key).filter fun o =>
        convention.isDeclaration o.file == inDeclaration := by
  induction scan with
  | nil => rfl
  | cons s scan ih =>
    rw [occurrencesOf] at ih
    rw [occurrencesOf, occurrencesUnder, List.filter_cons, List.filterMap_cons]
    by_cases hkey : s.key convention = key
    · cases ho : s.occurrence? with
      | none =>
        -- A malformed record may pass the filter by side, but states no occurrence.
        simp only [hkey, if_true]
        split
        · rw [List.filterMap_cons_none ho, ih]; rfl
        · exact ih
      | some o =>
        have hfile := s.file_of_occurrence? ho
        simp only [hkey, if_true, List.filter_cons, hfile, BEq.rfl, Bool.true_and]
        split
        · rw [List.filterMap_cons_some ho, ih]; rfl
        · exact ih
    · have hne : (s.key convention == key) = false := by simpa using hkey
      simp only [hne, Bool.false_and, Bool.false_eq_true, if_false, if_neg hkey]
      exact ih

/-- The occurrences in declaration files, or those in other files. -/
def onSide (convention : Convention) (inDeclaration : Bool) (occurrences : List Occurrence) :
    List Occurrence :=
  occurrences.filter fun o => convention.isDeclaration o.file == inDeclaration

/-- The side of an occurrence is told by its position, through the file. -/
theorem keepFirst_onSide (convention : Convention) (inDeclaration : Bool)
    (occurrences : List Occurrence) :
    Occurrence.keepFirst (onSide convention inDeclaration occurrences) =
      onSide convention inDeclaration (Occurrence.keepFirst occurrences) := by
  apply Occurrence.keepFirst_filter
  intro o p heq
  rw [show o.file = p.file from congrArg Prod.fst heq]

/-- A bucket has the first occurrences of its key, those in declaration files behind the others. -/
theorem bucketOf_eq_append (convention : Convention) (scan : List Sighting) (key : Key) :
    bucketOf convention scan key =
      onSide convention false (Occurrence.keepFirst (occurrencesUnder convention scan key)) ++
        onSide convention true (Occurrence.keepFirst (occurrencesUnder convention scan key)) := by
  rw [bucketOf, merged_variantsOf, occurrencesOf_eq_filter, occurrencesOf_eq_filter,
    ← keepFirst_onSide, ← keepFirst_onSide]
  rfl

theorem mem_bucketOf_iff_mem_keepFirst :
    o ∈ bucketOf convention scan key ↔
      o ∈ Occurrence.keepFirst (occurrencesUnder convention scan key) := by
  rw [bucketOf_eq_append, List.mem_append, onSide, onSide, List.mem_filter, List.mem_filter]
  cases convention.isDeclaration o.file <;> simp

/-! ### First records -/

/-- A bucket holds the first records of its key, and nothing else. -/
theorem mem_bucketOf_iff :
    o ∈ bucketOf convention scan key ↔
      ∃ s, IsFirst convention scan s ∧ s.key convention = key ∧ s.occurrence? = some o := by
  rw [mem_bucketOf_iff_mem_keepFirst, Occurrence.mem_keepFirst_iff, occurrencesUnder]
  constructor
  · rintro ⟨before, after, heq, hbefore⟩
    -- The place of `o` among the occurrences of the key is a place of the scan.
    obtain ⟨left, right, rfl, hleft, hright⟩ := List.filterMap_eq_append_iff.mp heq
    obtain ⟨skipped, s, rest, rfl, hskipped, hs, -⟩ := List.filterMap_eq_cons_iff.mp hright
    obtain ⟨hkey, ho⟩ : s.key convention = key ∧ s.occurrence? = some o := by
      split at hs
      · next hkey => exact ⟨hkey, hs⟩
      · cases hs
    refine ⟨s, ⟨by simp [Sighting.isValid, ho], left ++ skipped, rest, by simp, ?_⟩, hkey, ho⟩
    intro r hr hrkey hpos
    rw [s.position?_of_occurrence? ho] at hpos
    obtain ⟨p, hp, hpp⟩ := Sighting.position?_eq_some_iff.mp hpos
    have hshown : (if r.key convention = key then r.occurrence? else none) = some p := by
      rw [if_pos (hrkey.trans hkey), hp]
    rcases List.mem_append.mp hr with hmem | hmem
    · refine hbefore p ?_ hpp
      rw [← hleft]
      exact List.mem_filterMap.mpr ⟨r, hmem, hshown⟩
    · rw [hskipped r hmem] at hshown
      cases hshown
  · rintro ⟨s, ⟨-, before, after, rfl, hbefore⟩, rfl, ho⟩
    refine ⟨_, _, by rw [List.filterMap_append, List.filterMap_cons, if_pos rfl, ho], ?_⟩
    intro p hp heq
    obtain ⟨r, hr, hshown⟩ := List.mem_filterMap.mp hp
    split at hshown
    · next hkey =>
      refine hbefore r hr hkey ?_
      rw [r.position?_of_occurrence? hshown, s.position?_of_occurrence? ho, heq]
    · cases hshown

theorem IsFirst.mem (h : IsFirst convention scan s) : s ∈ scan := by
  obtain ⟨-, before, after, rfl, -⟩ := h
  simp

theorem IsFirst.exists_occurrence? (h : IsFirst convention scan s) :
    ∃ o, s.occurrence? = some o :=
  Option.isSome_iff_exists.mp h.1

/-- The occurrence of a first record is in the bucket of its key. -/
theorem IsFirst.mem_bucketOf (h : IsFirst convention scan s) (ho : s.occurrence? = some o) :
    o ∈ bucketOf convention scan (s.key convention) :=
  mem_bucketOf_iff.mpr ⟨s, h, rfl, ho⟩

/-- No position of a well-formed record is lost: some record of the same key is the first there. -/
theorem exists_isFirst (convention : Convention) {p : String × UInt32 × UInt32} (hs : s ∈ scan)
    (hp : s.position? = some p) :
    ∃ t, IsFirst convention scan t ∧ t.key convention = s.key convention ∧
      t.position? = some p := by
  -- The search for a record of the key at the position cannot fail, since it could stop at `s`.
  obtain ⟨t, ht⟩ : ∃ t, scan.find? (fun r =>
      r.key convention == s.key convention && r.position? == some p) = some t := by
    rw [← Option.isSome_iff_exists, List.find?_isSome]
    exact ⟨s, hs, by simp [hp]⟩
  obtain ⟨hfound, before, after, hscan, hbefore⟩ := List.find?_eq_some_iff_append.mp ht
  simp only [Bool.and_eq_true, beq_iff_eq] at hfound
  obtain ⟨hkey, hpos⟩ := hfound
  obtain ⟨o, ho, -⟩ := Sighting.position?_eq_some_iff.mp hpos
  refine ⟨t, ⟨by simp [Sighting.isValid, ho], before, after, hscan, ?_⟩, hkey, hpos⟩
  intro r hr hrkey hrpos
  have hr' := hbefore r hr
  rw [hrkey.trans hkey, hrpos.trans hpos] at hr'
  simp at hr'

/-! ### Keys and positions of a bucket -/

theorem key_of_mem_bucketOf (h : o ∈ bucketOf convention scan key) : o.key convention = key := by
  obtain ⟨s, -, hkey, ho⟩ := mem_bucketOf_iff.mp h
  rw [s.key_of_occurrence? convention ho, hkey]

theorem bucketOf_eq_nil (h : key ∉ keysOf convention scan) : bucketOf convention scan key = [] := by
  rw [bucketOf, variantsOf_eq_empty h]
  rfl

theorem mem_keysOf_of_mem_bucketOf (h : o ∈ bucketOf convention scan key) :
    key ∈ keysOf convention scan := by
  by_contra hkey
  rw [bucketOf_eq_nil hkey] at h
  cases h

theorem nodup_position_bucketOf (convention : Convention) (scan : List Sighting) (key : Key) :
    ((bucketOf convention scan key).map Occurrence.position).Nodup :=
  Occurrence.nodup_position_keepFirst _

end Index

end SymbolSearch
