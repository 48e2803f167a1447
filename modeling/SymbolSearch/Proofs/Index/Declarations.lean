import Mathlib.Data.List.Infix
import SymbolSearch.Proofs.Index.Order
import SymbolSearch.Proofs.Symbol.Layout

/-!
# Declaration files and the files they declare

A source file and its declaration file have names that differ in a `.d` before the ending. Symbols
that differ in this way only have one key under the standard convention, so their records share a
bucket, whatever documents they are found in. The bucket is divided by those documents and not by
the symbols: a record of either symbol may be on either side.

The endings overlap, since the name of a declaration file ends like that of a source file. What is
before the ending tells them apart. A source file must not itself look like a declaration file, that
is, no `.d` may stand before its ending already.

## Main definitions

* `Descriptor.SourceName` — the common name of a source file and its declaration file

## Main results

* `Convention.matching?_append` — the standard extension that fits a name with a standard ending
* `Convention.normalize_declared` — source file and declaration file have one implementation file
* `Index.pairwise_isDeclaration_bucketOf` — the order of a bucket
* `Index.declarations_share_bucket` — the records of both symbols in their bucket
-/

namespace SymbolSearch

namespace Convention

variable {x y : Extension}

/-! ### Standard endings -/

theorem fits_iff {path : String} :
    fits path x = true ↔ x.declaration ≠ "" ∧ x.declaration.toList <:+ path.toList := by
  rw [fits, Bool.and_eq_true, List.isSuffixOf_iff_suffix, Bool.not_eq_true', ← Bool.not_eq_true,
    String.isEmpty_iff]

/-- The ending of declaration files has a `.d` before the ending of the files they declare. -/
theorem declaration_of_mem_standard :
    ∀ x ∈ standard.extensions,
      x.declaration.toList = ".d".toList ++ x.implementation.toList := by
  decide

/-- No ending of source files is a part of another one. -/
theorem eq_of_implementation_suffix :
    ∀ x ∈ standard.extensions, ∀ y ∈ standard.extensions,
      y.implementation.toList <:+ x.implementation.toList → y = x := by
  decide

/-- Which extension fits a name is told by the ending, and whether one fits by what is before it. -/
theorem fits_append_iff (hx : x ∈ standard.extensions) (hy : y ∈ standard.extensions)
    (stem : List Char) :
    fits (String.ofList (stem ++ x.implementation.toList)) y = true ↔
      y = x ∧ ".d".toList <:+ stem := by
  rw [fits_iff, String.toList_ofList, declaration_of_mem_standard y hy]
  constructor
  · rintro ⟨-, hsuffix⟩
    have hyending : y.implementation.toList <:+ stem ++ x.implementation.toList :=
      (List.suffix_append _ _).trans hsuffix
    have hyx : y = x := by
      rcases List.suffix_or_suffix_of_suffix hyending (List.suffix_append _ _) with h | h
      · exact eq_of_implementation_suffix x hx y hy h
      · exact (eq_of_implementation_suffix y hy x hx h).symm
    subst hyx
    exact ⟨rfl, List.suffix_append_self_iff.mp hsuffix⟩
  · rintro ⟨rfl, hstem⟩
    refine ⟨?_, List.suffix_append_self_iff.mpr hstem⟩
    rw [ne_eq, ← String.toList_eq_nil_iff, declaration_of_mem_standard y hy]
    exact List.cons_ne_nil _ _

theorem matching?_append (hx : x ∈ standard.extensions) (stem : List Char) :
    standard.matching? (String.ofList (stem ++ x.implementation.toList)) =
      if ".d".toList <:+ stem then some x else none := by
  split
  · next h =>
    have hfits := (fits_append_iff hx hx stem).mpr ⟨rfl, h⟩
    obtain ⟨y, hy⟩ := Option.isSome_iff_exists.mp (List.find?_isSome.mpr ⟨x, hx, hfits⟩)
    -- The extension that is found fits, and only `x` does.
    obtain ⟨rfl, -⟩ := (fits_append_iff hx (List.mem_of_find?_eq_some hy) stem).mp
      (List.find?_some hy)
    exact hy
  · next h =>
    apply List.find?_eq_none.mpr
    intro y hy hfits
    exact h ((fits_append_iff hx hy stem).mp hfits).2

theorem normalize_of_matching? {convention : Convention} {path : String} {stem : List Char}
    (hmatching : convention.matching? path = some x)
    (hpath : path.toList = stem ++ x.declaration.toList) :
    convention.normalize path = String.ofList (stem ++ x.implementation.toList) := by
  rw [normalize, hmatching]
  simp only [hpath, List.length_append, Nat.add_sub_cancel, List.take_left]

/-- What stands before the ending of a declaration file, or of the file that it declares. -/
def declaredMark (declared : Bool) : List Char := if declared then ".d".toList else []

/-- A source file and its declaration file belong to one implementation file, the source file. -/
theorem normalize_declared (hx : x ∈ standard.extensions) {stem : List Char}
    (hstem : ¬ ".d".toList <:+ stem) (declared : Bool) :
    standard.normalize
        (String.ofList (stem ++ declaredMark declared ++ x.implementation.toList)) =
      String.ofList (stem ++ x.implementation.toList) := by
  have hmatching := matching?_append hx (stem ++ declaredMark declared)
  cases declared with
  | false =>
    rw [declaredMark, if_neg Bool.false_ne_true, List.append_nil, if_neg hstem] at hmatching
    rw [declaredMark, if_neg Bool.false_ne_true, List.append_nil, normalize, hmatching]
  | true =>
    rw [declaredMark, if_pos rfl, if_pos (List.suffix_append _ _)] at hmatching
    apply normalize_of_matching? hmatching
    rw [String.toList_ofList, declaration_of_mem_standard x hx, List.append_assoc]

end Convention

namespace Descriptor

/-! ### The two symbols -/

/-- The common name of a source file and its declaration file. -/
structure SourceName where
  /-- What stands before the endings of both. -/
  stem : List Char
  /-- The ending of the source file. -/
  ending : List Char
  ending_mem : ending ∈ [".ts".toList, ".mts".toList, ".cts".toList] := by decide
  no_tick : '\x60' ∉ stem := by decide
  no_backslash : '\\' ∉ stem := by decide

namespace SourceName

theorem ending_plain : ∀ ending ∈ [".ts".toList, ".mts".toList, ".cts".toList],
    ending ≠ [] ∧ '\x60' ∉ ending ∧ '\\' ∉ ending ∧ ending.getLast? ≠ some '/' := by
  decide

theorem exists_extension : ∀ ending ∈ [".ts".toList, ".mts".toList, ".cts".toList],
    ∃ x ∈ Convention.standard.extensions, x.implementation.toList = ending := by
  decide

/-- The name of the declaration file, or of the source file. -/
def file (name : SourceName) (declared : Bool) : FileName where
  text := name.stem ++ Convention.declaredMark declared ++ name.ending
  ne_nil := by
    have hne := (ending_plain name.ending name.ending_mem).1
    simp [hne]
  no_tick := by
    have hending := (ending_plain name.ending name.ending_mem).2.1
    have hmark : '\x60' ∉ Convention.declaredMark declared := by cases declared <;> decide
    simp [name.no_tick, hmark, hending]
  no_backslash := by
    have hending := (ending_plain name.ending name.ending_mem).2.2.1
    have hmark : '\\' ∉ Convention.declaredMark declared := by cases declared <;> decide
    simp [name.no_backslash, hmark, hending]
  no_slash_at_end := by
    obtain ⟨hne, -, -, hlast⟩ := ending_plain name.ending name.ending_mem
    rw [List.getLast?_append_of_ne_nil _ hne]
    exact hlast

end SourceName

/-- The symbol of a layout, with the source file or the declaration file of a name in place of its
file. -/
def Layout.symbolIn (s : Layout) (name : SourceName) (declared : Bool) : String :=
  String.ofList { s with file := name.file declared }.text

/-- The key that both symbols have. -/
def Layout.sourceKey (s : Layout) (name : SourceName) : Key where
  package := String.ofList s.package.text
  file := String.ofList (s.directory.text ++ name.stem ++ name.ending)
  name := String.ofList (displayNameOf s.chain.text)

theorem Layout.key_symbolIn {s : Layout} {name : SourceName}
    (hstem : ¬ ".d".toList <:+ s.directory.text ++ name.stem) (declared : Bool) :
    Key.ofDescriptor Convention.standard (parse (s.symbolIn name declared)) = s.sourceKey name := by
  obtain ⟨x, hx, hending⟩ := SourceName.exists_extension name.ending name.ending_mem
  have hfile := Convention.normalize_declared hx hstem declared
  rw [hending] at hfile
  rw [symbolIn, parse, String.toList_ofList, packageOf_text, filePathOf_text, chainOf_text,
    Key.ofDescriptor, sourceKey, ← hfile]
  simp only [SourceName.file, List.append_assoc]

end Descriptor

namespace Index

/-! ### The bucket of both -/

theorem isDeclaration_of_mem_onSide {convention : Convention} {inDeclaration : Bool}
    {occurrences : List Occurrence} {o : Occurrence}
    (h : o ∈ onSide convention inDeclaration occurrences) :
    convention.isDeclaration o.file = inDeclaration :=
  beq_iff_eq.mp (List.mem_filter.mp h).2

/-- In a bucket the occurrences in declaration files stand behind all others. -/
theorem pairwise_isDeclaration_bucketOf (convention : Convention) (scan : List Sighting)
    (key : Key) :
    (bucketOf convention scan key).Pairwise fun o p =>
      convention.isDeclaration o.file = true → convention.isDeclaration p.file = true := by
  rw [bucketOf_eq_append]
  -- Nothing on the first side is in a declaration file, and everything on the second side is.
  apply List.pairwise_append.mpr
  refine ⟨?_, ?_, ?_⟩
  · apply List.pairwise_of_forall_mem_list
    intro o ho p hp hdeclaration
    rw [isDeclaration_of_mem_onSide ho] at hdeclaration
    exact absurd hdeclaration Bool.false_ne_true
  · apply List.pairwise_of_forall_mem_list
    intro o ho p hp _
    exact isDeclaration_of_mem_onSide hp
  · intro o ho p hp _
    exact isDeclaration_of_mem_onSide hp

/-- Symbols that differ only in whether their file is a source file or its declaration file share
the bucket under the source file. Each well-formed record of either symbol has its position there,
and is itself there if it is the first of the key at that position. No other bucket has an
occurrence of these symbols. In the bucket, what was found in declaration files stands behind what
was found in others. -/
theorem declarations_share_bucket (s : Descriptor.Layout) (name : Descriptor.SourceName)
    (hstem : ¬ ".d".toList <:+ s.directory.text ++ name.stem) (documents : List Document) :
    let scan := sightings documents
    let index := build Convention.standard documents
    let bucket := index.bucket (s.sourceKey name)
    (∀ r ∈ scan, ∀ declared, r.record.symbol = s.symbolIn name declared →
      ∀ o, r.occurrence? = some o →
        (∃ p ∈ bucket, p.position = o.position) ∧
          (IsFirst Convention.standard scan r → o ∈ bucket)) ∧
      (∀ b ∈ index.buckets, ∀ o ∈ b.2, ∀ declared, o.symbol = s.symbolIn name declared →
        b.1 = s.sourceKey name) ∧
      bucket.Pairwise fun o p =>
        Convention.standard.isDeclaration o.file = true →
          Convention.standard.isDeclaration p.file = true := by
  intro scan index bucket
  have hbucket : bucket = bucketOf Convention.standard scan (s.sourceKey name) :=
    bucket_build Convention.standard documents _
  rw [hbucket]
  refine ⟨?_, ?_, pairwise_isDeclaration_bucketOf _ _ _⟩
  · intro r hr declared hsymbol o ho
    -- The key is all that the two symbols have to share; what follows holds of any record of a key.
    have hkey : r.key Convention.standard = s.sourceKey name := by
      rw [Sighting.key, hsymbol, Descriptor.Layout.key_symbolIn hstem]
    constructor
    · apply List.mem_map.mp
      exact mem_map_position_bucketOf_iff.mpr ⟨r, hr, hkey, r.position?_of_occurrence? ho⟩
    · intro hfirst
      rw [← hkey]
      exact hfirst.mem_bucketOf ho
  · intro b hb o ho declared hsymbol
    rw [eq_bucketOf_of_mem_buckets hb] at ho
    rw [← key_of_mem_bucketOf ho, Occurrence.key, hsymbol, Descriptor.Layout.key_symbolIn hstem]

/-- A stem that itself ends like a declaration file, before another ending. -/
def ticket : Descriptor.SourceName where
  stem := "Ticket.d.ts".toList
  ending := ".mts".toList

/-- The symbol of the source file in a declaration file, then the symbol of the declaration file in
a source file. -/
def ticketDocuments : List Document :=
  [⟨"lib/use.d.ts", [⟨Descriptor.Layout.sample.symbolIn ticket false, 2, [1, 2, 6], none⟩]⟩,
    ⟨"src/use.ts", [⟨Descriptor.Layout.sample.symbolIn ticket true, 2, [3, 4, 5, 6], none⟩]⟩]

/-- The bucket of both symbols. -/
def ticketBucket : List Occurrence :=
  (build Convention.standard ticketDocuments).bucket (Descriptor.Layout.sample.sourceKey ticket)

theorem declarations_share_bucket_ticket :
    ¬ ".d".toList <:+ Descriptor.Layout.sample.directory.text ++ ticket.stem ∧
      (∃ o ∈ ticketBucket, o.position = ("lib/use.d.ts", 1, 2)) ∧
      ∃ o ∈ ticketBucket, o.position = ("src/use.ts", 3, 4) := by
  have hstem : ¬ ".d".toList <:+ Descriptor.Layout.sample.directory.text ++ ticket.stem := by
    decide
  obtain ⟨hkept, -, -⟩ :=
    declarations_share_bucket Descriptor.Layout.sample ticket hstem ticketDocuments
  refine ⟨hstem, ?_, ?_⟩
  · exact (hkept _ List.mem_cons_self false rfl _ rfl).1
  · exact (hkept _ (List.mem_cons_of_mem _ List.mem_cons_self) true rfl _ rfl).1

end Index

end SymbolSearch
