import SymbolSearch.Proofs.Query.Pattern
import SymbolSearch.Proofs.Query.Qualified

/-!
# Buckets that can be found

A bucket can be found in two ways: by its display name, if that name is a plain query, and by the
chain of one of its occurrences, if that chain is a complete pattern. There is no third way. A
qualified query looks for a complete pattern, and a chain that ends in a complete pattern is complete
itself, so what a query with a part of a chain finds is also found with the whole chain. A chain
without a marker at its end, such as that of a parameter, is therefore out of reach for qualified
queries, and its display name, which may have dots inside, for plain ones.

## Main results

* `Query.exists_selects_iff` — the buckets that some query selects
* `Query.find_eq_append_iff` — a bucket that is selected is found whole
* `Query.exists_find_eq_append_iff` — the buckets of an index that some query finds
-/

namespace SymbolSearch.Query

variable {query : String} {key : Key} {bucket : List Occurrence} {index : Index}
  {before after : List (Key × List Occurrence)}

/-! ### Selecting a bucket -/

/-- A chain that fits the pattern of a qualified query is complete. -/
theorem isComplete_of_fits {chain : List Char} (hq : isQualified query.toList = true)
    (h : Fits (pattern query.toList) chain) : IsComplete chain := by
  have hpattern : IsComplete (pattern query.toList) := isComplete_pattern hq
  rcases h with rfl | hsuffix
  · exact hpattern
  · exact hpattern.of_suffix ((List.suffix_cons '/' _).trans hsuffix)

/-- Some query selects a bucket exactly if its display name is a plain query or one of its chains is
a complete pattern. -/
theorem exists_selects_iff :
    (∃ query, query ≠ "" ∧ selects query key bucket = true) ↔
      (key.name ≠ "" ∧ '.' ∉ key.name.toList ∧ '#' ∉ key.name.toList) ∨
        ∃ o ∈ bucket, IsComplete (Descriptor.chainOf o.symbol.toList) := by
  constructor
  · rintro ⟨query, hne, hselects⟩
    -- The kind of the query decides which of the two ways it took.
    by_cases hq : isQualified query.toList = true
    · obtain ⟨o, ho, hfits⟩ := (selects_qualified_iff hq).mp hselects
      exact Or.inr ⟨o, ho, isComplete_of_fits hq hfits⟩
    · have hplain : '.' ∉ query.toList ∧ '#' ∉ query.toList := by simpa [isQualified] using hq
      have hname : key.name = query := (selects_plain hplain.1 hplain.2).mp hselects
      rw [hname]
      exact Or.inl ⟨hne, hplain⟩
  · rintro (⟨hne, hdot, hhash⟩ | ⟨o, ho, hcomplete⟩)
    · exact ⟨key.name, hne, (selects_plain hdot hhash).mpr rfl⟩
    · -- The chain itself is the query, since it is its own pattern.
      have htext : (String.ofList (Descriptor.chainOf o.symbol.toList)).toList =
          Descriptor.chainOf o.symbol.toList := String.toList_ofList
      have hq := hcomplete.isQualified
      rw [← htext] at hq
      refine ⟨_, ne_empty_of_isQualified hq, (selects_qualified_iff hq).mpr ⟨o, ho, Or.inl ?_⟩⟩
      rw [htext, pattern_of_isComplete hcomplete]

/-! ### Finding a bucket of an index -/

theorem hitsIn_any :
    hitsIn query Filter.any key bucket =
      if selects query key bucket then bucket.map Hit.ofOccurrence else [] := by
  have hall : bucket.filter (admits Filter.any) = bucket := List.filter_eq_self.mpr fun _ _ => rfl
  rw [hitsIn, hall, admitsBucket, Filter.any, Bool.and_true]

/-- Without filters, the whole of a bucket stands between the hits from the buckets before it and
those from the buckets after it if the query selects it, and only then. -/
theorem find_eq_append_iff (hindex : index.buckets = before ++ (key, bucket) :: after)
    (hbucket : bucket ≠ []) :
    find index query Filter.any =
        find { index with buckets := before } query Filter.any ++
          (bucket.map Hit.ofOccurrence ++ find { index with buckets := after } query Filter.any) ↔
      query ≠ "" ∧ selects query key bucket = true := by
  have hhits : bucket.map Hit.ofOccurrence ≠ [] := fun h => hbucket (List.map_eq_nil_iff.mp h)
  by_cases hne : query = ""
  · -- The empty query has no hits at all.
    subst hne
    simpa [find] using hbucket
  · rw [find_of_ne hne, find_of_ne hne, find_of_ne hne, hindex, List.flatMap_append,
      List.flatMap_cons, List.append_cancel_left_eq, List.append_cancel_right_eq, hitsIn_any]
    -- A bucket that is not selected adds nothing, which is not the whole of it.
    split
    · next hselects => exact iff_of_true rfl ⟨hne, hselects⟩
    · next hselects => exact iff_of_false hhits.symm fun h => hselects h.2

/-- A bucket with occurrences is found by some query exactly if its display name is not empty and has
neither a dot nor a hash, or one of its occurrences has a chain with a hash that ends in a dot, a
hash or a slash. -/
theorem exists_find_eq_append_iff {index : Index} {before after : List (Key × List Occurrence)}
    {key : Key} {bucket : List Occurrence}
    (hindex : index.buckets = before ++ (key, bucket) :: after) (hbucket : bucket ≠ []) :
    (∃ query, find index query Filter.any =
        find { index with buckets := before } query Filter.any ++
          (bucket.map Hit.ofOccurrence ++
            find { index with buckets := after } query Filter.any)) ↔
      (key.name ≠ "" ∧ '.' ∉ key.name.toList ∧ '#' ∉ key.name.toList) ∨
        ∃ o ∈ bucket, IsComplete (Descriptor.chainOf o.symbol.toList) := by
  simp only [find_eq_append_iff hindex hbucket]
  exact exists_selects_iff

/-- A function and its parameter. -/
def functionWithParameter : List Document :=
  [⟨"src/a.ts",
    [⟨sampleSymbol "run().", 1, [1, 9, 12], none⟩,
      ⟨sampleSymbol "run().(options)", 1, [1, 13, 20], none⟩]⟩]

def functionBucket : Key × List Occurrence :=
  (⟨"app", "src/a.ts", "run()"⟩,
    [⟨sampleSymbol "run().", "src/a.ts", 1, 9, 1, 12, ⟨1⟩, some .method⟩])

def parameterKey : Key := ⟨"app", "src/a.ts", "run().(options)"⟩

def parameterOccurrence : Occurrence :=
  ⟨sampleSymbol "run().(options)", "src/a.ts", 1, 13, 1, 20, ⟨1⟩, some .parameter⟩

/-- No query finds the parameter. -/
theorem exists_find_eq_append_iff_parameter :
    let index := Index.build Convention.standard functionWithParameter
    index.buckets = [functionBucket] ++ (parameterKey, [parameterOccurrence]) :: [] ∧
      ¬ ∃ query, find index query Filter.any =
        find { index with buckets := [functionBucket] } query Filter.any ++
          ([parameterOccurrence].map Hit.ofOccurrence ++
            find { index with buckets := [] } query Filter.any) := by
  intro index
  have hindex : index.buckets =
      [functionBucket] ++ (parameterKey, [parameterOccurrence]) :: [] := by decide
  refine ⟨hindex, ?_⟩
  rw [exists_find_eq_append_iff hindex (List.cons_ne_nil _ _)]
  rintro (⟨-, hdot, -⟩ | ⟨o, ho, -, c, hc, hmarker⟩)
  · exact hdot (by decide)
  · have hlast : (Descriptor.chainOf parameterOccurrence.symbol.toList).getLast? = some ')' := by
      decide
    rw [List.mem_singleton.mp ho, hlast, Option.mem_some_iff] at hc
    subst hc
    revert hmarker
    decide

end SymbolSearch.Query
