import SymbolSearch.Proofs.Query.Find

/-!
# Qualified queries

A qualified query is compared with descriptor chains, but what it selects is a bucket, and a bucket
is the home of every symbol with one display name in one file. Two scopes with a member of the same
name share a bucket: a query for one finds both. And where two such members stand at one position
only the first is kept, so a query for the other may find nothing at all. Both effects come from the
same fact: a bucket is found as soon as one record that was kept in it fits the pattern.

## Main definitions

* `Query.Fits` — a descriptor chain is the pattern, or ends in it behind a slash

## Main results

* `Query.mem_find_qualified_iff` — the hits of a qualified query
* `Query.forall_hit_fits_iff` — when every hit fits the pattern
* `Query.exists_hit_at_iff` — when the position of a record is found under its key
-/

namespace SymbolSearch

namespace Index.Sighting

/-- The descriptor chain of the record's symbol. -/
def chain (s : Sighting) : List Char := Descriptor.chainOf s.record.symbol.toList

theorem chainOf_of_occurrence? {s : Sighting} {o : Occurrence} (h : s.occurrence? = some o) :
    Descriptor.chainOf o.symbol.toList = s.chain := by
  rw [s.symbol_of_occurrence? h]
  rfl

end Index.Sighting

namespace Query

open Index

variable {convention : Convention} {documents : List Document} {query : String} {hit : Hit}

/-- A descriptor chain is the pattern, or ends in it behind a slash. -/
def Fits (pattern chain : List Char) : Prop := chain = pattern ∨ '/' :: pattern <:+ chain

instance decidableFits (pattern chain : List Char) : Decidable (Fits pattern chain) :=
  inferInstanceAs (Decidable (_ ∨ _))

theorem chainMatches_iff {pattern chain : List Char} :
    chainMatches pattern chain = true ↔ Fits pattern chain := by
  rw [chainMatches, Bool.or_eq_true, beq_iff_eq, List.isSuffixOf_iff_suffix]
  rfl

theorem ne_empty_of_isQualified (hq : isQualified query.toList = true) : query ≠ "" := by
  rintro rfl
  cases hq

theorem selects_qualified_iff (hq : isQualified query.toList = true) {key : Key}
    {bucket : List Occurrence} :
    selects query key bucket = true ↔
      ∃ o ∈ bucket, Fits (pattern query.toList) (Descriptor.chainOf o.symbol.toList) := by
  simp only [selects, if_pos hq, List.any_eq_true, chainMatches_iff]

/-- A qualified query selects the buckets in which a record that fits was kept. -/
theorem selects_bucketOf_iff (hq : isQualified query.toList = true) {scan : List Sighting}
    {key : Key} :
    selects query key (bucketOf convention scan key) = true ↔
      ∃ t, IsFirst convention scan t ∧ t.key convention = key ∧
        Fits (pattern query.toList) t.chain := by
  rw [selects_qualified_iff hq]
  constructor
  · rintro ⟨o, ho, hfits⟩
    obtain ⟨t, ht, hkey, hto⟩ := mem_bucketOf_iff.mp ho
    rw [t.chainOf_of_occurrence? hto] at hfits
    exact ⟨t, ht, hkey, hfits⟩
  · rintro ⟨t, ht, rfl, hfits⟩
    obtain ⟨o, hto⟩ := ht.exists_occurrence?
    refine ⟨o, ht.mem_bucketOf hto, ?_⟩
    rw [t.chainOf_of_occurrence? hto]
    exact hfits

/-- The hits of a qualified query are the records that were kept under the keys where one that fits
was kept. -/
theorem mem_find_qualified_iff (hq : isQualified query.toList = true) :
    hit ∈ find (build convention documents) query Filter.any ↔
      ∃ s o, IsFirst convention (sightings documents) s ∧ s.occurrence? = some o ∧
        hit = Hit.ofOccurrence o ∧
        ∃ t, IsFirst convention (sightings documents) t ∧
          t.key convention = s.key convention ∧ Fits (pattern query.toList) t.chain := by
  rw [mem_find_build_iff (ne_empty_of_isQualified hq), mem_hitsIn_iff, mem_bucketOf_iff,
    selects_bucketOf_iff hq]
  simp only [admitsBucket, Filter.any, admits, inFolder, hasKind, Bool.and_true, and_true]
  constructor
  · rintro ⟨hhit, ⟨s, hs, hkey, ho⟩, hselected⟩
    rw [← hkey] at hselected
    exact ⟨s, hit.occurrence, hs, ho, hhit, hselected⟩
  · rintro ⟨s, o, hs, ho, rfl, hselected⟩
    have hkey := s.key_of_occurrence? convention ho
    rw [← hkey] at hselected
    exact ⟨rfl, ⟨s, hs, hkey.symm, ho⟩, hselected⟩

/-! ### Do the hits fit? -/

/-- Every hit of a qualified query fits its pattern exactly if no key has kept both a record that
fits and one that does not. -/
theorem forall_hit_fits_iff (convention : Convention) (documents : List Document) (query : String)
    (hq : isQualified query.toList = true) :
    (∀ hit ∈ find (build convention documents) query Filter.any,
        Fits (pattern query.toList) (Descriptor.chainOf hit.occurrence.symbol.toList)) ↔
      ∀ s t, IsFirst convention (sightings documents) s →
        IsFirst convention (sightings documents) t → s.key convention = t.key convention →
        Fits (pattern query.toList) s.chain → Fits (pattern query.toList) t.chain := by
  constructor
  · -- A record that fits brings in its bucket, and with it every other record kept there.
    intro hall s t hs ht hkey hfits
    obtain ⟨o, ho⟩ := ht.exists_occurrence?
    rw [← t.chainOf_of_occurrence? ho]
    exact hall (Hit.ofOccurrence o)
      ((mem_find_qualified_iff hq).mpr ⟨t, o, ht, ho, rfl, s, hs, hkey, hfits⟩)
  · intro hsame hit hhit
    obtain ⟨t, o, ht, ho, rfl, s, hs, hkey, hfits⟩ := (mem_find_qualified_iff hq).mp hhit
    have hfits' := hsame s t hs ht hkey hfits
    rw [← t.chainOf_of_occurrence? ho] at hfits'
    exact hfits'

/-- One of two members at one place is kept, so all that is found for it fits. -/
theorem forall_hit_fits_iff_sharedPlace :
    isQualified "B.name".toList = true ∧
      ∀ s t, IsFirst Convention.standard (sightings sharedPlace) s →
        IsFirst Convention.standard (sightings sharedPlace) t →
        s.key Convention.standard = t.key Convention.standard →
        Fits "B#name.".toList s.chain → Fits "B#name.".toList t.chain :=
  ⟨by decide,
    (forall_hit_fits_iff Convention.standard sharedPlace "B.name" (by decide)).mp
      (by decide +kernel)⟩

/-- Two members of one name at two places. -/
def twoScopes : List Document :=
  [⟨"src/a.ts",
    [⟨sampleSymbol "A#name.", 1, [1, 2, 6], none⟩, ⟨sampleSymbol "B#name.", 1, [5, 2, 6], none⟩]⟩]

/-- A query for a member of one scope finds the member of another scope with the same name. -/
theorem not_forall_hit_fits :
    ¬ ∀ (convention : Convention) (documents : List Document) (query : String),
      isQualified query.toList = true →
      ∀ hit ∈ find (build convention documents) query Filter.any,
        Fits (pattern query.toList) (Descriptor.chainOf hit.occurrence.symbol.toList) := by
  intro hall
  have hscopes := hall Convention.standard twoScopes "A.name" (by decide)
  revert hscopes
  decide +kernel

/-! ### Is the position of a record found? -/

/-- The position of a well-formed record is found under its key exactly if a record of the key that
fits the pattern was kept. -/
theorem exists_hit_at_iff (convention : Convention) (documents : List Document) (query : String)
    (hq : isQualified query.toList = true) {s : Sighting} (hs : s ∈ sightings documents)
    {p : String × UInt32 × UInt32} (hp : s.position? = some p) :
    (∃ hit ∈ find (build convention documents) query Filter.any,
        hit.occurrence.key convention = s.key convention ∧ hit.occurrence.position = p) ↔
      ∃ t, IsFirst convention (sightings documents) t ∧ t.key convention = s.key convention ∧
        Fits (pattern query.toList) t.chain := by
  constructor
  · rintro ⟨hit, hhit, hkey, -⟩
    obtain ⟨r, o, -, ho, rfl, t, ht, htr, hfits⟩ := (mem_find_qualified_iff hq).mp hhit
    rw [← r.key_of_occurrence? convention ho] at htr
    exact ⟨t, ht, htr.trans hkey, hfits⟩
  · rintro ⟨t, ht, htkey, hfits⟩
    -- The record itself may have been merged away, but its position is that of a kept one.
    obtain ⟨r, hr, hrkey, hrp⟩ := exists_isFirst convention hs hp
    obtain ⟨o, ho, hop⟩ := Sighting.position?_eq_some_iff.mp hrp
    refine ⟨Hit.ofOccurrence o, (mem_find_qualified_iff hq).mpr
      ⟨r, o, hr, ho, rfl, t, ht, htkey.trans hrkey.symm, hfits⟩, ?_, hop⟩
    exact (r.key_of_occurrence? convention ho).trans hrkey

/-- The first of two members at one place is found there. -/
theorem exists_hit_at_iff_sharedPlace :
    ∃ hit ∈ find (build Convention.standard sharedPlace) "B.name" Filter.any,
      hit.occurrence.key Convention.standard = ⟨"app", "src/a.ts", "name"⟩ ∧
        hit.occurrence.position = ("src/a.ts", 1, 2) := by
  have hfirst : IsFirst Convention.standard (sightings sharedPlace)
      ⟨"src/a.ts", ⟨sampleSymbol "B#name.", 1, [1, 2, 6], none⟩⟩ :=
    ⟨by decide, [], _, rfl, by simp⟩
  have hp : Sighting.position? ⟨"src/a.ts", ⟨sampleSymbol "B#name.", 1, [1, 2, 6], none⟩⟩ =
      some ("src/a.ts", 1, 2) := by decide
  exact (exists_hit_at_iff Convention.standard sharedPlace "B.name" (by decide) hfirst.mem hp).mpr
    ⟨_, hfirst, rfl, by decide⟩

/-- A query for the second of two members at one place finds nothing there. -/
theorem not_forall_exists_hit_at :
    ¬ ∀ (convention : Convention) (documents : List Document) (query : String),
      isQualified query.toList = true →
      ∀ s ∈ sightings documents, ∀ p, s.position? = some p → s.chain = pattern query.toList →
        ∃ hit ∈ find (build convention documents) query Filter.any,
          hit.occurrence.position = p := by
  intro hall
  obtain ⟨hit, hhit, -⟩ := hall Convention.standard sharedPlace "A.name" (by decide)
    ⟨"src/a.ts", ⟨sampleSymbol "A#name.", 1, [1, 2, 6], none⟩⟩
    (by simp [sightings, sharedPlace]) ("src/a.ts", 1, 2) (by decide) (by decide)
  have hnone : find (build Convention.standard sharedPlace) "A.name" Filter.any = [] := by
    decide +kernel
  rw [hnone] at hhit
  cases hhit

end Query

end SymbolSearch
