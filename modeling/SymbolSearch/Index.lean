import SymbolSearch.Convention
import SymbolSearch.Occurrence
import SymbolSearch.Symbol.Descriptor

/-!
# The symbol index

An index collects the occurrences of each symbol under a key made of package, implementation file
and display name. Keys stand in the order in which they were first met.

## Main definitions

* `Key` — what the occurrences of one symbol have in common
* `Index` — buckets of occurrences in key order
* `Index.build` — the index of a list of documents
* `Index.ofEntries` — the index with given buckets
-/

namespace SymbolSearch

/-- What identifies a symbol across files: its package, the implementation file that holds it and
its display name. -/
structure Key where
  /-- The package. -/
  package : String
  /-- The implementation file. -/
  file : String
  /-- The display name. -/
  name : String
  deriving DecidableEq, Repr, Inhabited

namespace Key

/-- The key of a symbol under a convention. -/
def ofDescriptor (convention : Convention) (d : Descriptor) : Key :=
  ⟨d.packageName, convention.normalize d.filePath, d.displayName⟩

/-- The key as text, its parts divided by colons. -/
def text (key : Key) : String := key.package ++ ":" ++ key.file ++ ":" ++ key.name

end Key

/-- The occurrences of one symbol, those in declaration files apart. -/
structure Variants where
  /-- Occurrences in other files, in the order they were met. -/
  implementation : List Occurrence
  /-- Occurrences in declaration files, in the order they were met. -/
  declaration : List Occurrence
  deriving DecidableEq, Repr

namespace Variants

/-- No occurrences. -/
def empty : Variants := ⟨[], []⟩

/-- The variants with one more occurrence. -/
def add (v : Variants) (inDeclaration : Bool) (o : Occurrence) : Variants :=
  if inDeclaration then { v with declaration := v.declaration ++ [o] }
  else { v with implementation := v.implementation ++ [o] }

/-- All occurrences, one for each position. -/
def merged (v : Variants) : List Occurrence := Occurrence.merge v.implementation v.declaration

end Variants

/-- Occurrences of symbols by key. -/
structure Index where
  /-- The buckets, in the order of their keys. -/
  buckets : List (Key × List Occurrence)
  /-- The number of files that hold an occurrence. -/
  fileCount : Nat
  /-- The number of records that were not well-formed. -/
  skippedCount : Nat
  deriving DecidableEq, Repr

namespace Index

/-- What is known after a part of the documents was read. -/
structure Draft where
  /-- The occurrences met so far, by key. -/
  variants : List (Key × Variants)
  /-- The files of the occurrences met so far. -/
  files : List String
  /-- The number of records left out so far. -/
  skipped : Nat

namespace Draft

/-- Nothing read yet. -/
def empty : Draft := ⟨[], [], 0⟩

/-- Changes the variants of a key, which start out empty behind all other keys. -/
def update (key : Key) (f : Variants → Variants) : List (Key × Variants) → List (Key × Variants)
  | [] => [(key, f Variants.empty)]
  | (k, v) :: rest => if k = key then (k, f v) :: rest else (k, v) :: update key f rest

/-- A file added to a list of files, unless it is there. -/
def addFile (files : List String) (path : String) : List String :=
  if files.contains path then files else files ++ [path]

/-- One more record of the document at `path` read. -/
def addRecord (convention : Convention) (path : String) (draft : Draft) (record : Record) : Draft :=
  let d := Descriptor.parse record.symbol
  match Occurrence.ofRecord? path record d.kind with
  | none => { draft with skipped := draft.skipped + 1 }
  | some o =>
    { draft with
      variants := update (Key.ofDescriptor convention d)
        (fun v => v.add (convention.isDeclaration path) o) draft.variants
      files := addFile draft.files path }

/-- One more document read. -/
def addDocument (convention : Convention) (draft : Draft) (document : Document) : Draft :=
  document.records.foldl (addRecord convention document.path) draft

/-- The index of what was read. -/
def finish (draft : Draft) : Index :=
  { buckets := draft.variants.map (fun (key, v) => (key, v.merged))
    fileCount := draft.files.length
    skippedCount := draft.skipped }

end Draft

/-- The index of a list of documents under a convention. -/
def build (convention : Convention) (documents : List Document) : Index :=
  (documents.foldl (Draft.addDocument convention) Draft.empty).finish

/-- Puts a bucket under a key: a key that is there keeps its place and gets the new bucket. -/
def insert (key : Key) (bucket : List Occurrence) :
    List (Key × List Occurrence) → List (Key × List Occurrence)
  | [] => [(key, bucket)]
  | (k, b) :: rest => if k = key then (k, bucket) :: rest else (k, b) :: insert key bucket rest

/-- The number of different files in a list of occurrences. -/
def countFiles (occurrences : List Occurrence) : Nat :=
  (occurrences.foldl (fun files o => Draft.addFile files o.file) []).length

/-- The index with the given buckets, of which the last under each key counts. -/
def ofEntries (entries : List (Key × List Occurrence)) : Index :=
  let buckets := entries.foldl (fun buckets (key, bucket) => insert key bucket buckets) []
  { buckets, fileCount := countFiles (buckets.flatMap Prod.snd), skippedCount := 0 }

/-- The bucket under a key. -/
def get? (index : Index) (key : Key) : Option (List Occurrence) := index.buckets.lookup key

/-- The number of keys. -/
def keyCount (index : Index) : Nat := index.buckets.length

/-- The number of occurrences. -/
def symbolCount (index : Index) : Nat := (index.buckets.flatMap (fun b => b.2)).length

/-- Whether the index has no key. -/
def isEmpty (index : Index) : Bool := index.buckets.isEmpty

end Index

end SymbolSearch
