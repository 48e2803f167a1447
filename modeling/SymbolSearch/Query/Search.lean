import SymbolSearch.Index
import SymbolSearch.Query.Pattern

/-!
# Searching an index

A query selects buckets: a plain query by display name, a qualified one by the descriptor chains of
the occurrences in the bucket. Filters then narrow the buckets to those defined in a file, and their
occurrences to a folder and a kind.

## Main definitions

* `Query.Filter` — the filters of a search
* `Query.Hit` — an occurrence that was found
* `Query.find` — the hits of a query
* `Query.findOrWiden` — the hits, or those in the folder alone when the defining file has none
-/

namespace SymbolSearch.Query

/-- What narrows a search; an absent filter admits everything. -/
structure Filter where
  /-- Only buckets with a definition in this file. -/
  definingFile : Option String
  /-- Only occurrences in this folder. -/
  folder : Option String
  /-- Only occurrences of this kind. -/
  kind : Option SymbolKind
  deriving DecidableEq, Repr

namespace Filter

/-- The filter that admits everything. -/
def any : Filter := ⟨none, none, none⟩

end Filter

/-- An occurrence that a search found. -/
structure Hit where
  /-- The occurrence. -/
  occurrence : Occurrence
  /-- Whether it defines its symbol. -/
  isDefinition : Bool
  deriving DecidableEq, Repr

namespace Hit

/-- An occurrence as a hit. -/
def ofOccurrence (o : Occurrence) : Hit := ⟨o, o.isDefinition⟩

end Hit

/-- A folder as the start of the paths inside it; the empty folder admits all paths. -/
def folderStart (folder : String) : List Char :=
  match folder.toList.getLast? with
  | none => []
  | some '/' => folder.toList
  | some _ => folder.toList ++ ['/']

/-- Whether a file lies in the folder of a filter. -/
def inFolder (folder : Option String) (file : String) : Bool :=
  match folder with
  | none => true
  | some f => (folderStart f).isPrefixOf file.toList

/-- Whether a kind passes the kind of a filter; an unknown kind passes no given one. -/
def hasKind (wanted kind : Option SymbolKind) : Bool :=
  match wanted with
  | none => true
  | some k => kind == some k

/-- Whether a descriptor chain is the pattern or ends in it behind a slash. -/
def chainMatches (pattern chain : List Char) : Bool :=
  chain == pattern || ('/' :: pattern).isSuffixOf chain

/-- Whether a query selects a bucket: a qualified query by any of its descriptor chains, a plain
one by its display name. -/
def selects (query : String) (key : Key) (bucket : List Occurrence) : Bool :=
  if isQualified query.toList then
    bucket.any fun o => chainMatches (pattern query.toList) (Descriptor.chainOf o.symbol.toList)
  else key.name == query

/-- Whether a bucket holds a definition in a file. -/
def isDefinedIn (file : String) (bucket : List Occurrence) : Bool :=
  bucket.any fun o => o.isDefinition && o.file == file

/-- Whether a bucket passes the defining file of a filter. -/
def admitsBucket (filter : Filter) (bucket : List Occurrence) : Bool :=
  match filter.definingFile with
  | none => true
  | some file => isDefinedIn file bucket

/-- Whether an occurrence passes the folder and the kind of a filter. -/
def admits (filter : Filter) (o : Occurrence) : Bool :=
  inFolder filter.folder o.file && hasKind filter.kind o.kind

/-- The hits of a query, bucket after bucket; the empty query has none. -/
def find (index : Index) (query : String) (filter : Filter) : List Hit :=
  if query.isEmpty then []
  else
    index.buckets.flatMap fun (key, bucket) =>
      if selects query key bucket && admitsBucket filter bucket then
        (bucket.filter (admits filter)).map Hit.ofOccurrence
      else []

/-- The hits of a search that may have been widened. -/
structure Widened where
  /-- The hits. -/
  hits : List Hit
  /-- Whether they come from the widened search. -/
  widened : Bool
  deriving DecidableEq, Repr

/-- The hits of a query; when a defining file is asked for and nothing is found, the search is
repeated in the folder alone. -/
def findOrWiden (index : Index) (query : String) (filter : Filter) : Widened :=
  let hits := find index query filter
  if filter.definingFile.isNone || !hits.isEmpty then ⟨hits, false⟩
  else
    let wider := find index query { Filter.any with folder := filter.folder }
    ⟨wider, !wider.isEmpty⟩

end SymbolSearch.Query
