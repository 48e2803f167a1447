import SymbolSearch.Proofs.Query.Pattern
import SymbolSearch.Proofs.Query.Qualified
import SymbolSearch.Proofs.Symbol.Layout
import SymbolSearch.Request

/-!
# Members in queries and in chains

A member of a scope has two spellings. A user writes its names with dots between them, a descriptor
chain has hashes instead and a dot at the end, and both mark a method by an empty parameter list.
The pattern of the first spelling is the second, and the kind that the first lets guess is the kind
that the second shows. So a request in the user's spelling reaches the records of the member, unless
another record under the same key has taken their place.

## Main definitions

* `Query.Name` — a name without the characters that have a meaning in chains and queries
* `Query.Member` — a member of a scope, with its spellings `Member.query` and `Member.chain`

## Main results

* `Query.Member.pattern_query` — the pattern of the query is the chain
* `Query.Member.guessKind?_query` — the kind guessed from the query is the kind of the chain
* `Request.mem_hits_of_member` — a request for a member finds its records
-/

namespace SymbolSearch

namespace Query

/-- The characters that have a meaning of their own in chains and queries. -/
def isReserved (c : Char) : Bool :=
  c == '.' || c == '#' || c == '/' || c == '(' || c == ')' || c == '\x60' || Text.isBlank c

/-- A name as it stands in chains and in queries. -/
structure Name where
  text : List Char
  ne_nil : text ≠ [] := by decide
  plain : text.any isReserved = false := by decide

/-- A member of a scope. The scope is given by its names from the outermost on. -/
structure Member where
  scope : List Name
  scope_ne_nil : scope ≠ [] := by simp
  name : Name
  isMethod : Bool

namespace Member

variable (m : Member)

/-- The name with the parameter list of a method. -/
def leaf : List Char := if m.isMethod then m.name.text ++ ['(', ')'] else m.name.text

/-- The names from the outermost scope to the member. -/
def pieces : List (List Char) := m.scope.map Name.text ++ [m.leaf]

/-- The member as a user writes it. -/
def query : List Char := Text.join ['.'] m.pieces

/-- The member as a descriptor chain has it. -/
def chainText : List Char := Text.join ['#'] m.pieces ++ ['.']

/-! ### Characters of the spellings -/

variable {m} {c : Char}

/-- A reserved character stands in no piece, save the parentheses of a method. -/
theorem not_mem_of_mem_pieces (hc : isReserved c = true)
    (hcall : m.isMethod = true → c ≠ '(' ∧ c ≠ ')') : ∀ piece ∈ m.pieces, c ∉ piece := by
  have hname : ∀ name : Name, c ∉ name.text := by
    intro name hmem
    exact List.any_eq_false.mp name.plain c hmem hc
  intro piece hpiece
  rw [pieces, List.mem_append, List.mem_singleton] at hpiece
  rcases hpiece with hscope | rfl
  · obtain ⟨name, -, rfl⟩ := List.mem_map.mp hscope
    exact hname name
  · unfold leaf
    split
    · next hmethod => simp [hname, hcall hmethod]
    · exact hname m.name

theorem not_mem_query (hc : isReserved c = true) (hdot : c ≠ '.')
    (hcall : m.isMethod = true → c ≠ '(' ∧ c ≠ ')') : c ∉ m.query :=
  Text.not_mem_join (by simpa using hdot) (not_mem_of_mem_pieces hc hcall)

theorem not_mem_chainText (hc : isReserved c = true) (hdot : c ≠ '.') (hhash : c ≠ '#')
    (hcall : m.isMethod = true → c ≠ '(' ∧ c ≠ ')') : c ∉ m.chainText := by
  rw [chainText, List.mem_append, List.mem_singleton, not_or]
  exact ⟨Text.not_mem_join (by simpa using hhash) (not_mem_of_mem_pieces hc hcall), hdot⟩

theorem chainText_eq (m : Member) :
    m.chainText = Text.join ['#'] (m.scope.map Name.text) ++ ['#'] ++ m.leaf ++ ['.'] := by
  rw [chainText, pieces, Text.join_concat (by simpa using m.scope_ne_nil)]

theorem query_eq (m : Member) :
    m.query = Text.join ['.'] (m.scope.map Name.text) ++ ['.'] ++ m.leaf := by
  rw [query, pieces, Text.join_concat (by simpa using m.scope_ne_nil)]

/-- The spelling in a chain, as the chain of a symbol. -/
def chain (m : Member) : Descriptor.Chain where
  text := m.chainText
  no_slash := not_mem_chainText (by decide) (by decide) (by decide) fun _ => by decide
  blanks_enclosed := by
    -- There is no blank at all.
    rintro left c right heq hblank
    have hmem : c ∈ m.chainText := by simp [heq]
    refine absurd hmem (not_mem_chainText ?_ ?_ ?_ fun _ => ⟨?_, ?_⟩)
    · simp [isReserved, hblank]
    all_goals
      rintro rfl
      exact absurd hblank (by decide)
  not_quoted := by
    intro n rest heq
    have hmem : '\x60' ∈ m.chainText := by simp [heq]
    exact not_mem_chainText (by decide) (by decide) (by decide) (fun _ => by decide) hmem

/-! ### The query reaches the chain -/

theorem isQualified_query (m : Member) : isQualified m.query = true := by
  rw [query_eq]
  simp [isQualified]

theorem pattern_query (m : Member) : pattern m.query = m.chainText :=
  pattern_join (by simpa using m.scope_ne_nil)
    (not_mem_of_mem_pieces (by decide) fun _ => by decide)
    (not_mem_of_mem_pieces (by decide) fun _ => by decide)

/-- The kind of a member. -/
def kind (m : Member) : SymbolKind := if m.isMethod then .method else .term

theorem guessKind?_query (m : Member) : guessKind? m.query = some m.kind := by
  have hdot : m.query.contains '.' = true := by simp [query_eq]
  rw [guessKind?, kind]
  cases hmethod : m.isMethod with
  | true =>
    have hcall : m.query.contains '(' = true := by simp [query_eq, leaf, hmethod]
    rw [hcall, if_pos rfl, if_pos rfl]
  | false =>
    have hcall : '(' ∉ m.query := not_mem_query (by decide) (by decide) (by simp [hmethod])
    have hcontains : m.query.contains '(' = false := by simpa using hcall
    rw [hcontains, hdot]
    rfl

theorem ofChain_chainText (m : Member) : SymbolKind.ofChain m.chainText = m.kind := by
  rw [SymbolKind.ofChain, kind]
  cases hmethod : m.isMethod with
  | true =>
    have hsuffix : ['(', ')', '.'].isSuffixOf m.chainText = true := by
      rw [List.isSuffixOf_iff_suffix, chainText_eq, leaf, if_pos hmethod]
      exact ⟨Text.join ['#'] (m.scope.map Name.text) ++ ['#'] ++ m.name.text, by simp⟩
    rw [hsuffix]
    rfl
  | false =>
    -- Without a parenthesis the dot at the end is not that of a method.
    have hopen : '(' ∉ m.chainText :=
      not_mem_chainText (by decide) (by decide) (by decide) (by simp [hmethod])
    have hsuffix : ['(', ')', '.'].isSuffixOf m.chainText = false := by
      rw [← Bool.not_eq_true, List.isSuffixOf_iff_suffix]
      exact fun hsuffix => hopen (hsuffix.subset (by simp))
    have hlast : m.chainText.getLast? = some '.' := by simp [chainText]
    rw [hsuffix, hlast]
    rfl

end Member

end Query

namespace Request

open Index Query

/-- Without a defining file both forms of report show the hits of one search, and nothing is
widened. -/
theorem answer_of_definingFile_eq_none {request : Request} (h : request.definingFile = none)
    (index : Index) :
    request.answer index = ⟨find index request.symbol request.filter, none⟩ := by
  have hfilter : request.filter.definingFile = none := h
  rw [answer]
  cases request.format with
  | json => rfl
  | text => simp [findOrWiden, hfilter]

/-- A request for a member, in the user's spelling and without a defining file and a folder, answers
with every record of the member that has no kind of its own and no other record of its key at its
position. -/
theorem mem_hits_of_member (convention : Convention) {documents : List Document} (m : Member)
    (symbol : Descriptor.Layout) (hchain : symbol.chain = m.chain)
    {s : Sighting} (hs : s ∈ sightings documents)
    (hsymbol : s.record.symbol = String.ofList symbol.text) (hkind : s.record.kind = none)
    {o : Occurrence} (ho : s.occurrence? = some o)
    (halone : ∀ r ∈ sightings documents, r.key convention = s.key convention →
      r.position? = s.position? → r = s)
    {request : Request} (hquery : request.symbol = String.ofList m.query)
    (hfile : request.definingFile = none) (hfolder : request.folder = none) :
    let answer := request.answer (build convention documents)
    Hit.ofOccurrence o ∈ answer.hits ∧ answer.warning = none := by
  have hschain : s.chain = m.chainText := by
    rw [Sighting.chain, hsymbol, String.toList_ofList, symbol.chainOf_text, hchain]
    rfl
  -- The first record at the position can only be the record itself.
  have hfirst : IsFirst convention (sightings documents) s := by
    obtain ⟨t, ht, hkey, hpos⟩ := exists_isFirst convention hs (s.position?_of_occurrence? ho)
    rwa [halone t ht.mem hkey (hpos.trans (s.position?_of_occurrence? ho).symm)] at ht
  -- The pattern of the query is the chain of the record, so the record itself selects its bucket.
  have hqualified : isQualified request.symbol.toList = true := by
    rw [hquery, String.toList_ofList]
    exact m.isQualified_query
  have hfits : Fits (pattern request.symbol.toList) s.chain := by
    rw [hschain, hquery, String.toList_ofList, m.pattern_query]
    exact Or.inl rfl
  -- The kind of the record is the kind that was guessed.
  have hokind : o.kind = some m.kind := by
    rw [s.kind_of_occurrence? ho, hkind, Option.getD_none, ← m.ofChain_chainText, ← hschain]
    rfl
  have hadmits : admits request.filter o = true := by
    rw [admits, filter, hfolder, hquery, String.toList_ofList, m.guessKind?_query, hokind]
    simp [inFolder, hasKind]
  have hbucket : ∀ bucket, admitsBucket request.filter bucket = true := by
    intro bucket
    rw [admitsBucket, filter, hfile]
  have hkey := s.key_of_occurrence? convention ho
  rw [answer_of_definingFile_eq_none hfile]
  refine ⟨?_, rfl⟩
  rw [mem_find_build_iff (ne_empty_of_isQualified hqualified), mem_hitsIn_iff, mem_bucketOf_iff,
    selects_bucketOf_iff hqualified]
  exact ⟨rfl, ⟨s, hfirst, hkey.symm, ho⟩, ⟨s, hfirst, hkey.symm, hfits⟩, hbucket _, hadmits⟩

/-- The method `run` of `Api` in `Server`. -/
def sampleMember : Member where
  scope := [{ text := "Server".toList }, { text := "Api".toList }]
  name := { text := "run".toList }
  isMethod := true

def sampleLayout : Descriptor.Layout :=
  { Descriptor.Layout.sample with opening := 0, closing := 0, chain := sampleMember.chain }

/-- Two calls of the method. -/
def sampleCalls : List Document :=
  [⟨"src/main.ts", [⟨String.ofList sampleLayout.text, 2, [3, 4, 7], none⟩]⟩,
    ⟨"lib/main.ts", [⟨String.ofList sampleLayout.text, 2, [3, 4, 7], none⟩]⟩]

theorem mem_hits_of_member_sample :
    let answer := answer (build Convention.standard sampleCalls)
      ⟨"Server.Api.run()", none, none, none, .text⟩
    Hit.ofOccurrence ⟨String.ofList sampleLayout.text, "lib/main.ts", 3, 4, 3, 7, ⟨2⟩, some .method⟩ ∈
        answer.hits ∧ answer.warning = none := by
  refine mem_hits_of_member Convention.standard sampleMember sampleLayout rfl
    (s := ⟨"lib/main.ts", ⟨String.ofList sampleLayout.text, 2, [3, 4, 7], none⟩⟩)
    (by simp [sightings, sampleCalls]) rfl rfl (by decide) ?_ (by decide) rfl rfl
  intro r hr hkey hpos
  simp only [sightings, sampleCalls, List.flatMap_cons, List.flatMap_nil, List.map_cons,
    List.map_nil, List.append_nil, List.singleton_append, List.mem_cons, List.not_mem_nil,
    or_false] at hr
  rcases hr with rfl | rfl
  · exact absurd hpos (by decide)
  · rfl

end Request

end SymbolSearch
