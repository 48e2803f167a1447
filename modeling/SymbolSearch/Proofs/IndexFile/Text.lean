import SymbolSearch.IndexFile.Decode
import SymbolSearch.Proofs.Json.Reader
import SymbolSearch.Proofs.Text.Encoding
import SymbolSearch.Proofs.Text.Trim

/-!
# JSON index files as bytes

A text that is read as a JSON index is decoded as one from its bytes. Conversely the bytes of a JSON
index start in a way of their own: blanks, a brace, blanks and a second mark.

## Main definitions

* `IndexFile.isBlankByte`, `IndexFile.isMark` — the bytes a JSON index starts with

## Main results

* `IndexFile.decode_utf8` — the bytes of a JSON index are decoded to its documents
* `IndexFile.exists_opening_bytes` — how the bytes of a JSON index start
* `IndexFile.isBlankByte_or_isMark` — what may stand before the second mark
-/

namespace SymbolSearch.IndexFile

/-! ### Decoding a text -/

theorem text?_eq_some_iff {bytes : List UInt8} {s : List Char} :
    text? bytes = some s ↔ bytes = Text.utf8 s := by
  unfold text?
  rw [Option.map_eq_some_iff]
  constructor
  · rintro ⟨t, ht, rfl⟩
    exact Text.fromUTF8?_eq_some_iff.mp ht
  · intro h
    refine ⟨String.ofList s, Text.fromUTF8?_eq_some_iff.mpr ?_, String.toList_ofList⟩
    rw [h, String.toList_ofList]

theorem decode_utf8 {s : List Char} {documents : List Document}
    (h : parseJson? s = some documents) : decode (Text.utf8 s) = .ok documents := by
  have htext : text? (Text.utf8 s) = some s := text?_eq_some_iff.mpr rfl
  have hne : Text.utf8 s ≠ [] := by
    intro hnil
    rw [hnil] at htext
    cases htext
    cases h
  have hjson : (text? (Text.utf8 s)).bind parseJson? = some documents := by
    rw [htext, Option.bind_some, h]
  rw [decode, decodeForm, if_neg (by simpa using hne), hjson]
  rfl

/-! ### How the bytes of a JSON index start -/

/-- The bytes that can be part of a blank: blanks of ASCII, and bytes of other characters. -/
def isBlankByte (b : UInt8) : Bool := (9 ≤ b && b ≤ 13) || b == 32 || (128 ≤ b && b != 255)

/-- The marks an object starts with: braces and quotes. -/
def isMark (b : UInt8) : Bool := b == 0x7b || b == 0x7d || b == 0x22

theorem isBlankByte_of_isBlank {c : Char} {b : UInt8} (hc : Text.isBlank c = true)
    (hb : b ∈ String.utf8EncodeChar c) : isBlankByte b = true := by
  simp only [isBlankByte, Bool.or_eq_true, Bool.and_eq_true, decide_eq_true_eq, beq_iff_eq,
    bne_iff_ne, ne_eq, UInt8.le_iff_toNat_le, ← UInt8.toNat_inj]
  by_cases hascii : c.toNat < 128
  · rw [Text.utf8EncodeChar_of_lt hascii, List.mem_singleton] at hb
    simp only [Text.isBlank, Bool.or_eq_true, Bool.and_eq_true, decide_eq_true_eq,
      beq_iff_eq] at hc
    have hbyte : b.toNat = c.toNat := by rw [hb, UInt8.toNat_ofNat']; omega
    left
    change (9 ≤ b.toNat ∧ b.toNat ≤ 13) ∨ b.toNat = 32
    omega
  · obtain ⟨hlow, hhigh⟩ := Text.mem_utf8EncodeChar (Nat.le_of_not_lt hascii) hb
    right
    change 128 ≤ b.toNat ∧ ¬ b.toNat = 255
    omega

theorem isBlankByte_of_mem_utf8 {s : List Char} (h : ∀ c ∈ s, Text.isBlank c = true) :
    ∀ b ∈ Text.utf8 s, isBlankByte b = true := by
  intro b hb
  obtain ⟨c, hc, hbc⟩ := List.mem_flatMap.mp hb
  exact isBlankByte_of_isBlank (h c hc) hbc

theorem isBlank_of_jsonBlank {c : Char} (h : Json.isBlank c = true) : Text.isBlank c = true := by
  simp only [Json.isBlank, Bool.or_eq_true, beq_iff_eq] at h
  rcases h with ((rfl | rfl) | rfl) | rfl <;> decide

/-- The bytes of a JSON index are blanks, a brace, blanks, a second mark and more. -/
theorem exists_opening_bytes {bytes : List UInt8} {documents : List Document}
    (h : (text? bytes).bind parseJson? = some documents) :
    ∃ before between mark after, bytes = before ++ 0x7b :: (between ++ mark :: after) ∧
      (∀ b ∈ before ++ between, isBlankByte b = true) ∧ isMark mark = true := by
  obtain ⟨s, htext, hjson⟩ := Option.bind_eq_some_iff.mp h
  rw [text?_eq_some_iff.mp htext]
  simp only [parseJson?, bind] at hjson
  split at hjson
  · next hlooks =>
    obtain ⟨v, hparse, -⟩ := Option.bind_eq_some_iff.mp hjson
    obtain ⟨rest, hrest⟩ := List.head?_eq_some_iff.mp (beq_iff_eq.mp hlooks)
    rw [hrest] at hparse
    obtain ⟨blanks, c, rest, rfl, hblanks, hc⟩ := Json.exists_opening_of_parse? hparse
    obtain ⟨left, right, hs, hleft, -⟩ := Text.exists_eq_append_trim s
    rw [hs, hrest]
    have hmark : ∃ b, String.utf8EncodeChar c = [b] ∧ isMark b = true := by
      rcases hc with rfl | rfl
      · exact ⟨0x7d, rfl, rfl⟩
      · exact ⟨0x22, rfl, rfl⟩
    obtain ⟨b, hb, hbmark⟩ := hmark
    refine ⟨Text.utf8 left, Text.utf8 blanks, b, Text.utf8 (rest ++ right), ?_, ?_, hbmark⟩
    · rw [Text.utf8_append, List.cons_append, Text.utf8_cons, List.append_assoc,
        List.cons_append, Text.utf8_append blanks, Text.utf8_cons c, hb]
      rfl
    · intro b hb
      rcases List.mem_append.mp hb with hb | hb
      · exact isBlankByte_of_mem_utf8 hleft b hb
      · exact isBlankByte_of_mem_utf8 (fun c hc => isBlank_of_jsonBlank (hblanks c hc)) b hb
  · cases hjson

/-- Up to the second mark a JSON index has only blanks and marks. -/
theorem isBlankByte_or_isMark {left right : List UInt8} {b : UInt8} {documents : List Document}
    (h : (text? (left ++ b :: right)).bind parseJson? = some documents)
    (hleft : left.countP isMark ≤ 1) : isBlankByte b = true ∨ isMark b = true := by
  obtain ⟨before, between, mark, after, heq, hblank, hmark⟩ := exists_opening_bytes h
  have hsplit : left ++ b :: right = (before ++ 0x7b :: between) ++ mark :: after := by
    rw [heq]
    simp
  rcases List.append_eq_append_iff.mp hsplit with ⟨l, hl, hr⟩ | ⟨l, hl, hr⟩
  · -- The byte stands at the second mark or before it.
    cases l with
    | nil =>
      obtain ⟨rfl, -⟩ := List.cons.inj hr
      exact Or.inr hmark
    | cons d l =>
      obtain ⟨rfl, -⟩ := List.cons.inj hr
      have hmem : b ∈ before ++ 0x7b :: between := by rw [hl]; simp
      simp only [List.mem_append, List.mem_cons] at hmem
      rcases hmem with hmem | rfl | hmem
      · exact Or.inl (hblank b (List.mem_append_left _ hmem))
      · exact Or.inr rfl
      · exact Or.inl (hblank b (List.mem_append_right _ hmem))
  · cases l with
    | nil =>
      obtain ⟨rfl, -⟩ := List.cons.inj hr
      exact Or.inr hmark
    | cons d l =>
      -- Both marks stand before the byte.
      obtain ⟨rfl, -⟩ := List.cons.inj hr
      rw [hl] at hleft
      simp only [List.countP_append, List.countP_cons, hmark, if_true,
        show isMark 0x7b = true from rfl] at hleft
      omega

end SymbolSearch.IndexFile
