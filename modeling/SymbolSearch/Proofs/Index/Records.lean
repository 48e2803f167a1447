import SymbolSearch.Proofs.Index.Bucket

/-!
# Where the occurrences of an index come from

Nothing but well-formed records comes into an index, and what comes in stays as it was: merging
leaves occurrences out and changes none. So every occurrence of an index says what some record of
some document says, and whatever holds of the occurrences of well-formed records holds throughout
the index.

## Main results

* `Index.exists_restates_of_mem_bucketOf` — an occurrence in a bucket and its record
* `Index.wellFormed_iff_and_build_restates` — the records that come in, and what the index has of
  them
-/

namespace SymbolSearch.Index

variable {convention : Convention} {documents : List Document} {s : Sighting} {o : Occurrence}
  {key : Key}

theorem mem_sightings_iff :
    s ∈ sightings documents ↔
      ∃ document ∈ documents, ∃ record ∈ document.records, ⟨document.path, record⟩ = s := by
  simp only [sightings, List.mem_flatMap, List.mem_map]

/-- The occurrences of a bucket say what records say; a kind that the record leaves open is the one
of the chain. -/
theorem exists_restates_of_mem_bucketOf (h : o ∈ bucketOf convention (sightings documents) key) :
    ∃ document ∈ documents, ∃ record ∈ document.records,
      o.Restates document.path record
        (SymbolKind.ofChain (Descriptor.chainOf o.symbol.toList)) := by
  obtain ⟨s, hs, -, ho⟩ := mem_bucketOf_iff.mp h
  obtain ⟨document, hdocument, record, hrecord, rfl⟩ := mem_sightings_iff.mp hs.mem
  refine ⟨document, hdocument, record, hrecord, ?_⟩
  rw [Sighting.symbol_of_occurrence? ho]
  exact Sighting.restates_of_occurrence? ho

/-- A record states an occurrence exactly if it is well-formed. Every occurrence of an index has
lines and columns below half the number of words, and some record of a document says what it says:
it has that record's symbol, which is not empty, the path of that document, a start that does not
come after the end, the record's roles, and the record's kind or else the kind of its own chain. -/
theorem wellFormed_iff_and_build_restates :
    (∀ path record kind,
      (Occurrence.ofRecord? path record kind).isSome = true ↔ record.WellFormed) ∧
      ∀ convention documents, ∀ b ∈ (build convention documents).buckets, ∀ o ∈ b.2,
        (∀ n ∈ o.coordinates, n.toNat < 2 ^ 31) ∧
          ∃ document ∈ documents, ∃ record ∈ document.records,
            o.Restates document.path record
              (SymbolKind.ofChain (Descriptor.chainOf o.symbol.toList)) := by
  refine ⟨fun path record kind => Occurrence.isSome_ofRecord?_iff, ?_⟩
  intro convention documents b hb o ho
  rw [eq_bucketOf_of_mem_buckets hb] at ho
  obtain ⟨document, hdocument, record, hrecord, h⟩ := exists_restates_of_mem_bucketOf ho
  exact ⟨h.coordinate_lt, document, hdocument, record, hrecord, h⟩

end SymbolSearch.Index
