import Mathlib.Data.List.Flatten
import SymbolSearch.Proofs.Query.Find

/-!
# Filters of a search

The filters of a search work on two levels. The folder and the kind look at one hit at a time, so
they can be applied to the hits of a search after it. The defining file looks at a bucket and lets
all of its hits through or none. A bucket without a definition in the file is left out whole, with
hits that have nothing to do with the file; but a definition in the file is never left out, because
it is what lets its own bucket through.

## Main definitions

* `Query.Passes` — an occurrence is in the folder and of the kind that a filter asks for
* `Query.Hit.IsDefinitionIn` — a hit defines its symbol in a file

## Main results

* `Query.find_eq_filter` — the folder and the kind only take hits away
* `Query.find_definingFile_sublist` — so does the defining file
* `Query.filter_isDefinitionIn_find` — but it leaves the definitions in the file
* `Query.find_definingFile_ne_nil_iff` — and without one it leaves nothing
* `Query.find_filters_compose` — the filters together
-/

namespace SymbolSearch.Query

variable {query file : String} {bucket : List Occurrence}

/-! ### Folder and kind -/

theorem hitsIn_eq_filter (filter : Filter) (key : Key) (bucket : List Occurrence) :
    hitsIn query filter key bucket =
      (hitsIn query { Filter.any with definingFile := filter.definingFile } key bucket).filter
        fun hit => admits filter hit.occurrence := by
  have hall : bucket.filter (admits { Filter.any with definingFile := filter.definingFile }) =
      bucket := List.filter_eq_self.mpr fun _ _ => rfl
  unfold hitsIn
  rw [hall]
  -- Both searches ask the same of the bucket as a whole.
  change (if selects query key bucket && admitsBucket filter bucket then _ else _) =
    List.filter _ (if selects query key bucket && admitsBucket filter bucket then _ else _)
  split
  · rw [List.filter_map]
    rfl
  · rfl

/-- The hits of a search are those for its defining file alone that pass the folder and the kind. -/
theorem find_eq_filter (index : Index) (query : String) (filter : Filter) :
    find index query filter =
      (find index query { Filter.any with definingFile := filter.definingFile }).filter
        fun hit => admits filter hit.occurrence := by
  rw [find_eq_flatMap, find_eq_flatMap, List.filter_flatMap]
  apply List.flatMap_congr
  intro b _
  exact hitsIn_eq_filter filter b.1 b.2

instance decidableLiesIn (folder file : String) : Decidable (LiesIn folder file) :=
  inferInstanceAs (Decidable (_ ∨ _))

/-- An occurrence lies in the folder and has the kind that a filter asks for. What the filter does
not ask for is not looked at, and a kind that is not known is no kind that can be asked for. -/
def Passes (filter : Filter) (o : Occurrence) : Prop :=
  (∀ folder ∈ filter.folder, LiesIn folder o.file) ∧ ∀ kind ∈ filter.kind, o.kind = some kind

instance decidablePasses (filter : Filter) (o : Occurrence) : Decidable (Passes filter o) :=
  inferInstanceAs (Decidable (_ ∧ _))

theorem hasKind_iff {wanted kind : Option SymbolKind} :
    hasKind wanted kind = true ↔ ∀ k ∈ wanted, kind = some k := by
  cases wanted with
  | none => simp [hasKind]
  | some k => simp [hasKind]

theorem admits_eq_decide_passes (filter : Filter) (o : Occurrence) :
    admits filter o = decide (Passes filter o) := by
  rw [Bool.eq_iff_iff, decide_eq_true_iff, admits, Bool.and_eq_true, inFolder_iff, hasKind_iff]
  rfl

/-! ### The defining file -/

/-- A defining file lets all hits of a bucket through or none. -/
theorem hitsIn_definingFile (file : String) (key : Key) (bucket : List Occurrence) :
    hitsIn query ⟨some file, none, none⟩ key bucket =
      if isDefinedIn file bucket then hitsIn query Filter.any key bucket else [] := by
  have hgate : admitsBucket ⟨some file, none, none⟩ bucket = isDefinedIn file bucket := rfl
  have hopen : admitsBucket Filter.any bucket = true := rfl
  rw [hitsIn, hitsIn, hgate, hopen]
  cases isDefinedIn file bucket with
  | true => rfl
  | false => rw [Bool.and_false]; rfl

/-- A search for what a file defines leaves out some buckets and nothing else. -/
theorem find_definingFile_sublist (index : Index) (query file : String) :
    (find index query ⟨some file, none, none⟩).Sublist (find index query Filter.any) := by
  rw [find_eq_flatMap, find_eq_flatMap]
  apply List.Sublist.flatMap_right
  intro b _
  rw [hitsIn_definingFile]
  split
  · exact List.Sublist.refl _
  · exact List.nil_sublist _

/-- A hit defines its symbol, and does so in the given file. -/
def Hit.IsDefinitionIn (file : String) (hit : Hit) : Prop :=
  hit.isDefinition = true ∧ hit.occurrence.file = file

instance decidableIsDefinitionIn (file : String) (hit : Hit) :
    Decidable (hit.IsDefinitionIn file) :=
  inferInstanceAs (Decidable (_ ∧ _))

/-- A bucket is defined in a file if one of its occurrences is a definition there. -/
theorem isDefinedIn_iff :
    isDefinedIn file bucket = true ↔ ∃ o ∈ bucket, (Hit.ofOccurrence o).IsDefinitionIn file := by
  rw [isDefinedIn, List.any_eq_true]
  simp only [Bool.and_eq_true, beq_iff_eq]
  rfl

theorem filter_isDefinitionIn_hitsIn (file : String) (key : Key) (bucket : List Occurrence) :
    (hitsIn query ⟨some file, none, none⟩ key bucket).filter (fun hit => hit.IsDefinitionIn file) =
      (hitsIn query Filter.any key bucket).filter fun hit => hit.IsDefinitionIn file := by
  rw [hitsIn_definingFile]
  split
  · rfl
  · next hundefined =>
    -- The bucket is left out, so it has no definition in the file that could be missed.
    rw [List.filter_nil, eq_comm, List.filter_eq_nil_iff]
    intro hit hhit hdefinition
    obtain ⟨heq, ho, -⟩ := mem_hitsIn_iff.mp hhit
    apply hundefined
    rw [isDefinedIn_iff]
    refine ⟨hit.occurrence, ho, ?_⟩
    rw [← heq]
    exact of_decide_eq_true hdefinition

/-- A search for what a file defines has all definitions in the file that a search without filters
has, in the same order and as often. -/
theorem filter_isDefinitionIn_find (index : Index) (query file : String) :
    (find index query ⟨some file, none, none⟩).filter (fun hit => hit.IsDefinitionIn file) =
      (find index query Filter.any).filter fun hit => hit.IsDefinitionIn file := by
  rw [find_eq_flatMap, find_eq_flatMap, List.filter_flatMap, List.filter_flatMap]
  apply List.flatMap_congr
  intro b _
  exact filter_isDefinitionIn_hitsIn file b.1 b.2

/-- A search for what a file defines finds something exactly if the search without filters finds a
definition in the file. -/
theorem find_definingFile_ne_nil_iff (index : Index) (query file : String) :
    find index query ⟨some file, none, none⟩ ≠ [] ↔
      ∃ hit ∈ find index query Filter.any, hit.IsDefinitionIn file := by
  constructor
  · intro hsome
    obtain ⟨hit, hhit⟩ := List.exists_mem_of_ne_nil _ hsome
    rw [find_eq_flatMap] at hhit ⊢
    obtain ⟨b, hb, hhitb⟩ := List.mem_flatMap.mp hhit
    -- The hit may be any occurrence of its bucket, but the bucket has a definition in the file.
    obtain ⟨-, -, hselects, hdefined, -⟩ := mem_hitsIn_iff.mp hhitb
    obtain ⟨o, ho, hdefinition⟩ := isDefinedIn_iff.mp hdefined
    refine ⟨Hit.ofOccurrence o, List.mem_flatMap.mpr ⟨b, hb, ?_⟩, hdefinition⟩
    exact mem_hitsIn_iff.mpr ⟨rfl, ho, hselects, rfl, rfl⟩
  · intro hexists hnone
    obtain ⟨hit, hhit, hdefinition⟩ := hexists
    have hmem : hit ∈ (find index query Filter.any).filter fun hit => hit.IsDefinitionIn file :=
      List.mem_filter.mpr ⟨hhit, decide_eq_true hdefinition⟩
    rw [← filter_isDefinitionIn_find, hnone] at hmem
    exact List.not_mem_nil hmem

/-! ### All filters -/

/-- A search with filters has those hits of the search for its defining file alone that lie in the
folder and have the kind. The search for a defining file alone has a part of the hits of the search
without filters, in the same order; it has a hit exactly if the search without filters finds a
definition in the file, and all these definitions are among its hits, as often as they are found
without filters. -/
theorem find_filters_compose (index : Index) (query : String) (filter : Filter) :
    find index query filter =
        (find index query { Filter.any with definingFile := filter.definingFile }).filter
          (fun hit => Passes filter hit.occurrence) ∧
      ∀ file,
        let defined := find index query { Filter.any with definingFile := some file }
        defined.Sublist (find index query Filter.any) ∧
          (defined ≠ [] ↔ ∃ hit ∈ find index query Filter.any, hit.IsDefinitionIn file) ∧
          defined.filter (fun hit => hit.IsDefinitionIn file) =
            (find index query Filter.any).filter fun hit => hit.IsDefinitionIn file := by
  constructor
  · rw [find_eq_filter]
    apply List.filter_congr
    intro hit _
    exact admits_eq_decide_passes filter hit.occurrence
  · intro file
    exact ⟨find_definingFile_sublist index query file,
      find_definingFile_ne_nil_iff index query file, filter_isDefinitionIn_find index query file⟩

end SymbolSearch.Query
