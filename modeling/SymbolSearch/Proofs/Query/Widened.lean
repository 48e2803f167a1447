import SymbolSearch.Proofs.Query.Filters
import SymbolSearch.Request

/-!
# Widened searches

A search for what a file defines is widened when it finds nothing: it is repeated in the folder
alone, and a request for text then warns that the symbol is not defined in the file. But the search
that found nothing also looked for a folder and a kind. Where the file does define the symbol, in
another folder or as another kind, the search is widened all the same and the warning is wrong.

Between the two forms of a report nothing else can differ: the hits are the same, or the text has
the hits of the folder and the warning, and the JSON document has none.

## Main definitions

* `Query.UndefinedIn` — what the warning says
* `Query.ShowsDefined` — the folder and the kind leave something of what the file defines
* `Query.WidensRightly` — a search is widened, if at all, because the file defines nothing

## Main results

* `Query.findOrWiden_cases` — a search is widened or it is not
* `Request.warning_truthful_iff` — when a widened search is one for something undefined
* `Request.answer_text_json` — how the two forms of a report differ
-/

namespace SymbolSearch

namespace Query

variable {index : Index} {query file : String} {folder : Option String} {kind : Option SymbolKind}
  {filter : Filter}

/-! ### Searches for what a file defines -/

/-- No bucket that the query selects holds a definition in the file. -/
def UndefinedIn (index : Index) (query file : String) : Prop :=
  ∀ b ∈ index.buckets, selects query b.1 b.2 = true → isDefinedIn file b.2 = false

theorem hitsIn_definingFile_eq_nil_iff {key : Key} {bucket : List Occurrence} :
    hitsIn query ⟨some file, none, none⟩ key bucket = [] ↔
      (selects query key bucket = true → isDefinedIn file bucket = false) := by
  rw [List.eq_nil_iff_forall_not_mem]
  constructor
  · intro hnone hselects
    rw [← Bool.not_eq_true]
    intro hdefined
    -- The definition that lets the bucket through is itself a hit.
    obtain ⟨o, ho, -⟩ := List.any_eq_true.mp hdefined
    exact hnone (Hit.ofOccurrence o) (mem_hitsIn_iff.mpr ⟨rfl, ho, hselects, hdefined, rfl⟩)
  · intro hundefined hit hhit
    obtain ⟨-, -, hselects, hdefined, -⟩ := mem_hitsIn_iff.mp hhit
    exact Bool.false_ne_true ((hundefined hselects).symm.trans hdefined)

/-- A search for what a file defines finds nothing exactly if nothing is defined there. -/
theorem find_definingFile_eq_nil_iff (hne : query ≠ "") :
    find index query ⟨some file, none, none⟩ = [] ↔ UndefinedIn index query file := by
  rw [find_of_ne hne, List.flatMap_eq_nil_iff]
  exact forall₂_congr fun _ _ => hitsIn_definingFile_eq_nil_iff

/-- Something of what the file defines is in the folder and of the kind. -/
def ShowsDefined (index : Index) (query file : String) (folder : Option String)
    (kind : Option SymbolKind) : Prop :=
  ∃ hit ∈ find index query ⟨some file, none, none⟩,
    inFolder folder hit.occurrence.file = true ∧ hasKind kind hit.occurrence.kind = true

theorem find_eq_nil_iff_not_showsDefined :
    find index query ⟨some file, folder, kind⟩ = [] ↔
      ¬ ShowsDefined index query file folder kind := by
  rw [find_eq_filter, List.filter_eq_nil_iff]
  simp only [ShowsDefined, Filter.any, admits, Bool.and_eq_true, not_exists, not_and]

/-! ### Widening -/

theorem findOrWiden_of_hits (h : filter.definingFile = none ∨ find index query filter ≠ []) :
    findOrWiden index query filter = ⟨find index query filter, false⟩ := by
  have hstays : (filter.definingFile.isNone || !(find index query filter).isEmpty) = true := by
    simpa using h
  exact if_pos hstays

theorem findOrWiden_of_no_hits (hfile : filter.definingFile ≠ none)
    (hnone : find index query filter = []) :
    findOrWiden index query filter =
      ⟨find index query ⟨none, filter.folder, none⟩,
        !(find index query ⟨none, filter.folder, none⟩).isEmpty⟩ := by
  have hwidens : ¬ (filter.definingFile.isNone || !(find index query filter).isEmpty) = true := by
    simpa [hnone] using hfile
  exact if_neg hwidens

/-- A search has the hits it asks for, or it asks for a defining file, has no hits, and is widened to
hits in the folder. -/
theorem findOrWiden_cases (index : Index) (query : String) (filter : Filter) :
    findOrWiden index query filter = ⟨find index query filter, false⟩ ∨
      filter.definingFile ≠ none ∧ find index query filter = [] ∧
        find index query ⟨none, filter.folder, none⟩ ≠ [] ∧
        findOrWiden index query filter = ⟨find index query ⟨none, filter.folder, none⟩, true⟩ := by
  by_cases hstays : filter.definingFile = none ∨ find index query filter ≠ []
  · exact Or.inl (findOrWiden_of_hits hstays)
  · rw [not_or, not_ne_iff] at hstays
    obtain ⟨hfile, hnone⟩ := hstays
    have heq := findOrWiden_of_no_hits hfile hnone
    by_cases hwider : find index query ⟨none, filter.folder, none⟩ = []
    · -- The wider search may be as empty as the first one, and then it is not told.
      rw [hwider] at heq
      exact Or.inl (heq.trans (by rw [hnone]; rfl))
    · rw [List.isEmpty_eq_false_iff.mpr hwider] at heq
      exact Or.inr ⟨hfile, hnone, hwider, heq⟩

/-- A search for what a file defines is widened exactly if the folder and the kind leave nothing of
it, and the folder has something else to show. -/
theorem widened_iff :
    (findOrWiden index query ⟨some file, folder, kind⟩).widened = true ↔
      ¬ ShowsDefined index query file folder kind ∧ find index query ⟨none, folder, none⟩ ≠ [] := by
  rw [← find_eq_nil_iff_not_showsDefined]
  by_cases hnone : find index query ⟨some file, folder, kind⟩ = []
  · rw [findOrWiden_of_no_hits (Option.some_ne_none file) hnone]
    simp [hnone]
  · rw [findOrWiden_of_hits (Or.inr hnone)]
    simp [hnone]

/-- The file defines nothing that the query selects, or the folder has nothing to show instead, or
the folder and the kind leave something of what the file defines. -/
def WidensRightly (index : Index) (query file : String) (folder : Option String)
    (kind : Option SymbolKind) : Prop :=
  find index query ⟨some file, none, none⟩ = [] ∨ find index query ⟨none, folder, none⟩ = [] ∨
    ShowsDefined index query file folder kind

theorem widened_imp_iff :
    ((findOrWiden index query ⟨some file, folder, kind⟩).widened = true →
        find index query ⟨some file, none, none⟩ = []) ↔
      WidensRightly index query file folder kind := by
  rw [widened_iff, WidensRightly]
  tauto

end Query

namespace Request

open Index Query

variable {index : Index} {request : Request} {file : String}

theorem answer_of_text (h : request.format = .text) :
    request.answer index =
      ⟨(findOrWiden index request.symbol request.filter).hits,
        if (findOrWiden index request.symbol request.filter).widened then
          request.definingFile.map (notDefinedIn request.symbol)
        else none⟩ := by
  rw [answer, h]

theorem answer_of_json (h : request.format = .json) :
    request.answer index = ⟨find index request.symbol request.filter, none⟩ := by
  rw [answer, h]

/-! ### Is the warning true? -/

theorem warning_isSome_iff (hformat : request.format = .text)
    (hfile : request.definingFile = some file) :
    (request.answer index).warning.isSome = true ↔
      (findOrWiden index request.symbol request.filter).widened = true := by
  rw [answer_of_text hformat, hfile]
  split
  · next hwidened => exact iff_of_true rfl hwidened
  · next hwidened => exact iff_of_false Bool.false_ne_true hwidened

/-- The warning is true exactly if the search behind it is widened for want of a definition, which is
what being widened says of a search with any filters. -/
theorem warning_truthful_iff (index : Index) (file : String) :
    (∀ query folder kind,
      ((findOrWiden index query ⟨some file, folder, kind⟩).widened = true →
          find index query ⟨some file, none, none⟩ = []) ↔
        WidensRightly index query file folder kind) ∧
    ∀ request : Request, request.format = .text → request.definingFile = some file →
      (((request.answer index).warning.isSome = true → UndefinedIn index request.symbol file) ↔
        WidensRightly index request.symbol file request.folder
          (guessKind? request.symbol.toList)) := by
  refine ⟨fun query folder kind => widened_imp_iff, ?_⟩
  intro request hformat hfile
  rw [warning_isSome_iff hformat hfile, filter, hfile]
  by_cases hne : request.symbol = ""
  · -- The empty query finds nothing, so there is nothing to warn of.
    have hnone : ∀ filter, find index request.symbol filter = [] := by
      intro filter
      rw [hne]
      rfl
    rw [widened_iff]
    exact iff_of_true (fun h => absurd (hnone _) h.2) (Or.inl (hnone _))
  · rw [← find_definingFile_eq_nil_iff hne]
    exact widened_imp_iff

/-- Two classes of one name in two folders. -/
def homonyms : List Document :=
  [⟨"src/a.ts", [⟨"scip npm app 1.0 src/\x60a.ts\x60/Ticket#", 1, [1, 2, 8], none⟩]⟩,
    ⟨"lib/b.ts", [⟨"scip npm app 1.0 lib/\x60b.ts\x60/Ticket#", 1, [3, 2, 8], none⟩]⟩]

/-- Of two classes of one name, the one that the file defines is outside the folder and the other one
inside: the search is widened, and the warning says that the file does not define the class. -/
theorem not_forall_warning_truthful :
    (¬ ∀ (index : Index) (query file : String) (folder : Option String) (kind : Option SymbolKind),
      (findOrWiden index query ⟨some file, folder, kind⟩).widened = true →
        find index query ⟨some file, none, none⟩ = []) ∧
    ¬ ∀ (index : Index) (request : Request) (file : String),
      request.format = .text → request.definingFile = some file →
        (request.answer index).warning.isSome = true → UndefinedIn index request.symbol file := by
  constructor
  · intro hall
    have hnone := hall (build Convention.standard homonyms) "Ticket" "src/a.ts" (some "lib") none
    revert hnone
    decide +kernel
  · intro hall
    have hundefined := hall (build Convention.standard homonyms)
      ⟨"Ticket", none, some "src/a.ts", some "lib", .text⟩ "src/a.ts" rfl rfl
    revert hundefined
    unfold UndefinedIn
    decide +kernel

/-! ### Two forms of one report -/

/-- A JSON report has no warning. A text report has one exactly if its hits differ from those of the
JSON report, and then a defining file was asked for, the JSON report is empty, and the text report
shows what the folder has. -/
theorem answer_text_json (index : Index) (request : Request) :
    let text := answer index { request with format := .text }
    let json := answer index { request with format := .json }
    json.warning = none ∧ (text.warning.isSome = true ↔ text.hits ≠ json.hits) ∧
      (text.hits ≠ json.hits →
        (∃ file, request.definingFile = some file ∧
          text.warning = some (notDefinedIn request.symbol file)) ∧
        json.hits = [] ∧
        text.hits = find index request.symbol { Filter.any with folder := request.folder } ∧
        text.hits ≠ []) := by
  intro text json
  have hjson : json = ⟨find index request.symbol request.filter, none⟩ := answer_of_json rfl
  have htext : text = ⟨(findOrWiden index request.symbol request.filter).hits,
      if (findOrWiden index request.symbol request.filter).widened then
        request.definingFile.map (notDefinedIn request.symbol)
      else none⟩ := answer_of_text rfl
  refine ⟨congrArg Answer.warning hjson, ?_⟩
  rcases findOrWiden_cases index request.symbol request.filter with
    hstays | ⟨hfile, hnone, hwider, hwidens⟩
  · rw [hstays] at htext
    have hsame : text.hits = json.hits := by rw [htext, hjson]
    have hwarning : text.warning = none := congrArg Answer.warning htext
    refine ⟨iff_of_false (by simp [hwarning]) (not_not.mpr hsame), fun h => absurd hsame h⟩
  · obtain ⟨file, hfile⟩ := Option.ne_none_iff_exists'.mp hfile
    change request.definingFile = some file at hfile
    rw [hwidens, hfile] at htext
    rw [hnone] at hjson
    have hhits : text.hits = find index request.symbol { Filter.any with folder := request.folder } :=
      congrArg Answer.hits htext
    have hwarning : text.warning = some (notDefinedIn request.symbol file) :=
      congrArg Answer.warning htext
    have hempty : json.hits = [] := congrArg Answer.hits hjson
    have hsome : text.hits ≠ [] := hhits ▸ hwider
    refine ⟨iff_of_true (by rw [hwarning]; rfl) (hempty ▸ hsome), fun _ => ?_⟩
    exact ⟨⟨file, hfile, hwarning⟩, hempty, hhits, hsome⟩

end Request

end SymbolSearch
