import Mathlib.Data.List.TakeWhile
import SymbolSearch.Proofs.Symbol.Scan

/-!
# The layout of a symbol

The documented form of a symbol: four fields and a path divided by spaces, the path a directory, a
quoted file name and a chain of descriptors. Each part has a type of its own that says which texts
may stand there. Slashes may stand in fields and file names, blanks in file names and inside the
backticks of a chain, and the quotes of the file name may be escaped by any number of backslashes;
the parts are found again all the same.

## Main definitions

* `Descriptor.Field`, `Descriptor.Directory`, `Descriptor.FileName`, `Descriptor.Chain` — the parts
* `Descriptor.Layout`, `Descriptor.Layout.text` — a symbol put together from its parts

## Main results

* `Descriptor.Layout.parse_text` — parsing gives the parts back
-/

namespace SymbolSearch.Descriptor

instance decidableEnclosed (p : Char → Bool) (s : List Char) : Decidable (Enclosed p s) :=
  decidable_of_iff (∀ i : Fin s.length, p s[i] = true → Odd ((s.take i).count '\x60')) (by
    constructor
    · rintro h left c right rfl hc
      simpa using h ⟨left.length, by simp⟩ (by simpa using hc)
    · rintro h ⟨i, hlt⟩ hi
      refine h (s.take i) s[i] (s.drop (i + 1)) ?_ hi
      rw [List.getElem_cons_drop, List.take_append_drop])

/-- A field before the path. -/
structure Field where
  /-- The text of the field. -/
  text : List Char
  ne_nil : text ≠ [] := by decide
  no_space : ' ' ∉ text := by decide
  no_tick : '\x60' ∉ text := by decide

/-- The directory of the file. -/
structure Directory where
  /-- The text of the directory, with the slash at its end. -/
  text : List Char
  two_le_length : 2 ≤ text.length := by decide
  ends_in_slash : text.getLast? = some '/' := by decide
  no_blank : ∀ c ∈ text, Text.isBlank c = false
  no_tick : '\x60' ∉ text := by decide

/-- The name of the file. -/
structure FileName where
  /-- The text between the backticks. -/
  text : List Char
  ne_nil : text ≠ [] := by decide
  no_tick : '\x60' ∉ text := by decide
  no_backslash : '\\' ∉ text := by decide
  no_slash_at_end : text.getLast? ≠ some '/' := by decide

/-- The chain of descriptors inside the file. Its backticks need not come in pairs, but a blank
stands behind an odd number of them. -/
structure Chain where
  /-- The text of the chain. -/
  text : List Char
  no_slash : '/' ∉ text := by decide
  blanks_enclosed : Enclosed Text.isBlank text := by decide
  not_quoted : ∀ n rest, text ≠ List.replicate n '\\' ++ '\x60' :: rest

/-- A symbol in parts. -/
structure Layout where
  tool : Field
  manager : Field
  package : Field
  version : Field
  directory : Directory
  /-- The number of backslashes before the opening backtick of the file name. -/
  opening : Nat
  file : FileName
  /-- The number of backslashes before its closing backtick. -/
  closing : Nat
  chain : Chain

/-! ### What the parts promise the scanners -/

theorem Directory.exists_eq (d : Directory) :
    ∃ name : List Char, name ≠ [] ∧ d.text = name ++ ['/'] := by
  obtain ⟨name, hname⟩ := List.getLast?_eq_some_iff.mp d.ends_in_slash
  refine ⟨name, ?_, hname⟩
  rintro rfl
  have hlength := d.two_le_length
  rw [hname] at hlength
  simp at hlength

theorem FileName.endsSegment_eq_false (f : FileName) : ∀ c ∈ f.text, endsSegment c = false := by
  intro c hc
  simp only [endsSegment, Bool.or_eq_false_iff, beq_eq_false_iff_ne]
  exact ⟨fun h => f.no_tick (h ▸ hc), fun h => f.no_backslash (h ▸ hc)⟩

theorem Chain.enclosed (c : Chain) : Enclosed isBoundary c.text := by
  intro left b right heq hb
  rw [isBoundary, Bool.or_eq_true, beq_iff_eq] at hb
  rcases hb with rfl | hblank
  · exact absurd (by rw [heq]; simp) c.no_slash
  · exact c.blanks_enclosed left b right heq hblank

theorem ne_quoted_of_head {c : Char} {t : List Char} (hslash : c ≠ '\\') (htick : c ≠ '\x60') :
    ∀ n rest, c :: t ≠ List.replicate n '\\' ++ '\x60' :: rest := by
  intro n rest h
  cases n with
  | zero => exact htick (List.cons.inj h).1
  | succ n => exact hslash (List.cons.inj h).1

/-- A chain starts with no quoted segment. -/
theorem Chain.quotedSegment?_eq_none (c : Chain) : quotedSegment? c.text = none := by
  apply Descriptor.quotedSegment?_eq_none
  intro hhead
  obtain ⟨rest, hrest⟩ := List.head?_eq_some_iff.mp hhead
  refine c.not_quoted (c.text.takeWhile (· == '\\')).length rest ?_
  rw [← hrest, ← List.eq_replicate_iff.mpr ⟨rfl, ?_⟩, List.takeWhile_append_dropWhile]
  intro d hd
  simpa using List.mem_takeWhile_imp hd

theorem Chain.clear (c : Chain) : Clear ('/' :: c.text) := by
  refine ⟨fun _ => c.quotedSegment?_eq_none, ?_⟩
  rw [← List.append_nil c.text]
  exact clear_append c.no_slash trivial

namespace Layout

variable (s : Layout)

/-- The fields before the path, with the space behind each. -/
def preamble : List Char :=
  s.tool.text ++ ' ' :: (s.manager.text ++ ' ' :: (s.package.text ++ ' ' :: s.version.text))

/-- The quoted file name and the chain. -/
def tail : List Char :=
  List.replicate s.opening '\\' ++ '\x60' ::
    (s.file.text ++ (List.replicate s.closing '\\' ++ '\x60' :: '/' :: s.chain.text))

/-- The symbol as one text. -/
def text : List Char := s.preamble ++ ' ' :: (s.directory.text ++ s.tail)

theorem no_tick_preamble : '\x60' ∉ s.preamble := by
  simp [preamble, s.tool.no_tick, s.manager.no_tick, s.package.no_tick, s.version.no_tick]

theorem clear_tail : Clear s.tail := by
  have hclosing : Clear (List.replicate s.closing '\\' ++ '\x60' :: '/' :: s.chain.text) := by
    rw [List.append_cons]
    exact clear_append (by simp) s.chain.clear
  rw [tail, List.append_cons]
  exact clear_append (by simp)
    (clear_append_fileName s.file.endsSegment_eq_false s.file.no_slash_at_end hclosing)

/-! ### The parts of the text -/

theorem packageOf_text : packageOf s.text = s.package.text := by
  have h := packageOf_fields (s.directory.text ++ s.tail) ⟨s.tool.ne_nil, s.tool.no_space⟩
    ⟨s.manager.ne_nil, s.manager.no_space⟩ ⟨s.package.ne_nil, s.package.no_space⟩
    ⟨s.version.ne_nil, s.version.no_space⟩
  rw [← h, text, preamble]
  simp only [List.append_assoc, List.cons_append]

theorem filePathOf_text : filePathOf s.text = s.directory.text ++ s.file.text := by
  obtain ⟨name, hne, hname⟩ := s.directory.exists_eq
  have htick : '\x60' ∉ name := fun h => s.directory.no_tick (by rw [hname]; simp [h])
  have hblank : ∀ c ∈ name, Text.isBlank c = false := fun c hc =>
    s.directory.no_blank c (by rw [hname]; simp [hc])
  have hsegment : quotedSegment? s.tail = some s.file.text :=
    quotedSegment?_quoted s.opening s.closing _ s.file.ne_nil s.file.endsSegment_eq_false
  have hrun : (!(name.reverse ++ []).isEmpty) = true := by simpa using hne
  rw [filePathOf, text, filePathFrom_preamble [] _ s.no_tick_preamble, hname, List.append_assoc]
  change filePathFrom [] none (name ++ '/' :: s.tail) = _
  rw [filePathFrom_directory [] s.tail htick hblank, filePathFrom, hsegment, hrun]
  -- The last slash of the directory is the only one with a quoted segment behind it.
  change filePathFrom _ (some _) s.tail = _
  rw [filePathFrom_of_clear _ _ s.clear_tail]
  simp

theorem chainOf_text : chainOf s.text = s.chain.text := by
  have hsplit : s.text = (s.preamble ++ ' ' :: (s.directory.text ++
      (List.replicate s.opening '\\' ++ '\x60' ::
        (s.file.text ++ (List.replicate s.closing '\\' ++ ['\x60']))))) ++ '/' :: s.chain.text := by
    simp [text, tail]
  rw [hsplit]
  refine chainOf_append ?_ s.chain.enclosed
  simp [List.count_append, List.count_replicate,
    List.count_eq_zero_of_not_mem s.no_tick_preamble,
    List.count_eq_zero_of_not_mem s.directory.no_tick,
    List.count_eq_zero_of_not_mem s.file.no_tick]

/-- Parsing inverts the layout: the package, the file in its directory and the chain are found, and
with the chain its short name and its kind. -/
theorem parse_text :
    parse (String.ofList s.text) =
      { packageName := String.ofList s.package.text
        filePath := String.ofList (s.directory.text ++ s.file.text)
        displayName := String.ofList (displayNameOf s.chain.text)
        chain := String.ofList s.chain.text
        kind := SymbolKind.ofChain s.chain.text } := by
  rw [parse, String.toList_ofList, packageOf_text, filePathOf_text, chainOf_text]

/-- Slashes in the package, a tab in the version, escaped quotes, a slash and a blank in the file
name, and a quoted name with a blank in the chain. -/
def sample : Layout where
  tool := { text := "scip".toList }
  manager := { text := "npm".toList }
  package := { text := "@mdt/shared".toList }
  version := { text := ['1', '\t', '0'] }
  directory :=
    { text := "src/\\/".toList
      no_blank := by
        have hblank : ("src/\\/".toList.any Text.isBlank) = false := by decide
        simpa using hblank }
  opening := 2
  file := { text := "a/b c.ts".toList }
  closing := 1
  chain :=
    { text := ['A', '#', '\x60', 'm', ' ', 'n', '\x60', '(', ')', '.']
      not_quoted := ne_quoted_of_head (by decide) (by decide) }

theorem parse_text_sample :
    parse (String.ofList sample.text) =
      { packageName := "@mdt/shared"
        filePath := "src/\\/a/b c.ts"
        displayName := String.ofList ['\x60', 'm', ' ', 'n', '\x60', '(', ')']
        chain := String.ofList ['A', '#', '\x60', 'm', ' ', 'n', '\x60', '(', ')', '.']
        kind := .method } :=
  sample.parse_text.trans (by decide)

end Layout

end SymbolSearch.Descriptor
