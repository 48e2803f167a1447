import SymbolSearch.Proofs.Query.Pattern
import SymbolSearch.Proofs.Query.Qualified

/-!
# Two spellings of a query

Of a qualified query a search sees the pattern only, so queries with one pattern find the same. This
makes the dots and the hashes of a query interchangeable: a scope and a member can be joined by
either, even where a scope has no name or the member is nothing but a parameter list. The exceptions
are at the end. A query that ends in a hash or in a slash is a complete pattern as it stands, while
the same query with dots gets a dot of its own behind that end.

## Main results

* `Query.find_congr_pattern` — qualified queries with one pattern find the same
* `Query.find_join_dot_eq_find_join_hash` — dots and hashes find the same
-/

namespace SymbolSearch.Query

variable {query query' : String}

theorem selects_congr_pattern (hq : isQualified query.toList = true)
    (hq' : isQualified query'.toList = true) (h : pattern query.toList = pattern query'.toList)
    (key : Key) (bucket : List Occurrence) :
    selects query key bucket = selects query' key bucket := by
  rw [selects, selects, if_pos hq, if_pos hq', h]

/-- What a qualified query finds depends on its pattern only. -/
theorem find_congr_pattern (hq : isQualified query.toList = true)
    (hq' : isQualified query'.toList = true) (h : pattern query.toList = pattern query'.toList)
    (index : Index) (filter : Filter) : find index query filter = find index query' filter := by
  rw [find_of_ne (ne_empty_of_isQualified hq), find_of_ne (ne_empty_of_isQualified hq')]
  congr 1
  funext b
  rw [hitsIn, hitsIn, selects_congr_pattern hq hq' h]

/-- Two or more pieces without dots and hashes, of which the last is not empty and does not end in a
slash, find the same whether they are joined by dots or by hashes. -/
theorem find_join_dot_eq_find_join_hash (index : Index) (filter : Filter)
    (scope : List (List Char)) (member : List Char) (hscope : scope ≠ [])
    (hdot : ∀ piece ∈ scope ++ [member], '.' ∉ piece)
    (hhash : ∀ piece ∈ scope ++ [member], '#' ∉ piece)
    (hmember : member ≠ []) (hslash : member.getLast? ≠ some '/') :
    find index (String.ofList (Text.join ['.'] (scope ++ [member]))) filter =
      find index (String.ofList (Text.join ['#'] (scope ++ [member]))) filter := by
  have hmem : member ∈ scope ++ [member] := List.mem_concat_self
  have hpattern : pattern (Text.join ['#'] (scope ++ [member])) =
      Text.join ['#'] (scope ++ [member]) ++ ['.'] :=
    (pattern_join_hash_eq_iff hscope (hdot member hmem) (hhash member hmem)).mpr ⟨hmember, hslash⟩
  -- Both spellings are qualified by their separators and have the pattern with hashes and a dot.
  apply find_congr_pattern
  · rw [String.toList_ofList]
    simp [isQualified, Text.mem_join_concat hscope]
  · rw [String.toList_ofList]
    simp [isQualified, Text.mem_join_concat hscope]
  · rw [String.toList_ofList, String.toList_ofList, pattern_join hscope hdot hhash, hpattern]

/-- A method without a name in a scope without a name. -/
def unnamedMethod : List Document :=
  [⟨"src/a.ts", [⟨sampleSymbol "Server##().", 1, [1, 2, 6], none⟩]⟩]

theorem find_join_dot_eq_find_join_hash_unnamedMethod :
    let index := Index.build Convention.standard unnamedMethod
    find index "Server..()" Filter.any ≠ [] ∧
      find index "Server..()" Filter.any = find index "Server##()" Filter.any := by
  intro index
  refine ⟨by decide +kernel, ?_⟩
  exact find_join_dot_eq_find_join_hash index Filter.any ["Server".toList, []] "()".toList
    (by decide) (by decide) (by decide) (by decide) (by decide)

end SymbolSearch.Query
