import SymbolSearch.Proofs.IndexFile.Text
import SymbolSearch.Proofs.IndexFile.Written

/-!
# Binary index files are not taken for JSON

A binary index may start like a text: the tag of its metadata is a line break, and the length of the
metadata can be an opening brace. Still it is no JSON index. A JSON index has a second mark before
any byte that blanks and marks do not have. In a binary index such a foreign byte comes first: the
length of the metadata has room for one mark at most, and the metadata starts with a foreign byte.
The exception is metadata that holds only the number of an encoding, whose tag is a space. Then the
length is a foreign byte, or the number is negative and has a byte that no text has.

## Main results

* `IndexFile.bind_parseJson?_indexBytes` — a binary index file is not read as JSON
* `IndexFile.decode_indexBytes` — a binary index file is decoded to its documents
-/

namespace SymbolSearch.IndexFile

open Wire

/-! ### How the bytes of a binary index start -/

theorem isMark_eq_false {b : UInt8} (h : 128 ≤ b.toNat) : isMark b = false := by
  simp only [isMark, Bool.or_eq_false_iff, beq_eq_false_iff_ne, ne_eq, ← UInt8.toNat_inj]
  change (¬ b.toNat = 123 ∧ ¬ b.toNat = 125) ∧ ¬ b.toNat = 34
  omega

/-- At most the last byte of a number is a mark. -/
theorem countP_isMark_varintBytes (n : Nat) : (varintBytes n).countP isMark ≤ 1 := by
  refine le_of_le_of_eq (List.countP_mono_left ?_) (countP_varintBytes n)
  intro b _ hb
  rw [decide_eq_true_eq, UInt8.lt_iff_toNat_lt]
  by_contra hlarge
  rw [isMark_eq_false (Nat.le_of_not_lt hlarge)] at hb
  exact Bool.false_ne_true hb

theorem tagBytes_of_lt {field layout : Nat} (h : field * 8 + layout < 128) :
    tagBytes field layout = [UInt8.ofNat (field * 8 + layout)] :=
  varintBytes_of_lt h

theorem length_numberBytes_le {n : Int32} (h : 0 ≤ n.toInt) : (numberBytes n).length ≤ 5 := by
  have hhigh := n.toInt_lt
  refine length_varintBytes_le ?_
  omega

/-- A negative number takes ten bytes; the sixth and the next three hold nothing but the sign. -/
theorem exists_numberBytes_eq_append {n : Int32} (h : n.toInt < 0) :
    ∃ high, high.length = 5 ∧ (∀ b ∈ high, 128 ≤ b.toNat) ∧
      numberBytes n = high ++ [255, 255, 255, 255, 1] := by
  have hlow := n.le_toInt
  have hle : 128 ^ 5 ≤ (n.toInt % 2 ^ 64).toNat := by omega
  obtain ⟨high, hlength, hhigh, heq⟩ := exists_varintBytes_eq_append hle
  refine ⟨high, hlength, hhigh, ?_⟩
  have hsign : (n.toInt % 2 ^ 64).toNat / 128 ^ 5 = 2 ^ 29 - 1 := by omega
  rw [numberBytes, heq, hsign]
  simp [varintBytes]

/-- A stretch of bytes starts with one that blanks and marks do not have. -/
def StartsForeign (bytes : List UInt8) : Prop :=
  ∃ b rest, bytes = b :: rest ∧ isBlankByte b = false ∧ isMark b = false

theorem StartsForeign.append {left : List UInt8} (h : StartsForeign left) (right : List UInt8) :
    StartsForeign (left ++ right) := by
  obtain ⟨b, rest, rfl, hblank, hmark⟩ := h
  exact ⟨b, rest ++ right, rfl, hblank, hmark⟩

/-- Bytes below those of blanks are foreign. -/
theorem startsForeign_small {n : Nat} (h : n < 9) (rest : List UInt8) :
    StartsForeign (varintBytes n ++ rest) := by
  have hforeign : ∀ n < 9,
      isBlankByte (UInt8.ofNat n) = false ∧ isMark (UInt8.ofNat n) = false := by
    decide
  rw [varintBytes_of_lt (by omega)]
  exact ⟨_, rest, rfl, hforeign n h⟩

theorem startsForeign_tagBytes {field layout : Nat} (h : field * 8 + layout < 128)
    (hblank : isBlankByte (UInt8.ofNat (field * 8 + layout)) = false)
    (hmark : isMark (UInt8.ofNat (field * 8 + layout)) = false) (rest : List UInt8) :
    StartsForeign (tagBytes field layout ++ rest) :=
  ⟨_, rest, by rw [tagBytes_of_lt h]; rfl, hblank, hmark⟩

/-- A file in which at most one mark stands before a byte foreign to blanks and marks is no JSON
index. -/
theorem StartsForeign.bind_parseJson? {right : List UInt8} (h : StartsForeign right)
    (left : List UInt8) (hleft : left.countP isMark ≤ 1) :
    (text? (left ++ right)).bind parseJson? = none := by
  obtain ⟨b, rest, rfl, hblank, hmark⟩ := h
  rw [Option.eq_none_iff_forall_ne_some]
  intro documents hjson
  rcases isBlankByte_or_isMark hjson hleft with hb | hb
  · exact Bool.false_ne_true (hblank.symm.trans hb)
  · exact Bool.false_ne_true (hmark.symm.trans hb)

/-- Metadata is short, starts with a foreign byte, or holds only a negative number. -/
theorem Metadata.bytes_cases (m : Metadata) :
    m.bytes.length < 9 ∨ StartsForeign m.bytes ∨
      ∃ n : Int32, n.toInt < 0 ∧ m.bytes = 0x20 :: numberBytes n := by
  have hversion (h : m.version ≠ 0) : StartsForeign (numberField 1 m.version) := by
    rw [numberField, if_neg h]
    exact startsForeign_tagBytes (by decide) rfl rfl _
  have htool (tool : ToolInfo) : StartsForeign (messageField 2 tool.bytes) :=
    startsForeign_tagBytes (by decide) rfl rfl _
  have hroot (h : m.projectRoot ≠ "") : StartsForeign (textField 3 m.projectRoot) := by
    rw [textField, if_neg h]
    exact startsForeign_tagBytes (by decide) rfl rfl _
  have hencoding (h : m.textEncoding ≠ 0) :
      numberField 4 m.textEncoding = 0x20 :: numberBytes m.textEncoding := by
    rw [numberField, if_neg h, tagBytes_of_lt (by decide)]
    rfl
  unfold Metadata.bytes
  -- The first field that is present decides.
  by_cases h1 : m.version = 0
  · rw [numberField, if_pos h1, List.nil_append]
    cases m.toolInfo with
    | some tool => exact .inr (.inl (((htool tool).append _).append _))
    | none =>
      by_cases h3 : m.projectRoot = ""
      · rw [textField, if_pos h3, Option.elim_none, List.nil_append, List.nil_append]
        by_cases h4 : m.textEncoding = 0
        · rw [numberField, if_pos h4]
          exact .inl (by decide)
        · rw [hencoding h4]
          by_cases hsign : m.textEncoding.toInt < 0
          · exact .inr (.inr ⟨_, hsign, rfl⟩)
          · have hle := length_numberBytes_le (Int.not_lt.mp hsign)
            exact .inl (by rw [List.length_cons]; omega)
      · exact .inr (.inl ((hroot h3).append _))
  · exact .inr (.inl ((((hversion h1).append _).append _).append _))

/-- A file whose metadata holds only a negative number has a byte that no text has. -/
theorem bind_parseJson?_negative {n : Int32} (hn : n.toInt < 0) (rest : List UInt8) :
    (text? (0x0a :: (lengthPrefixed (0x20 :: numberBytes n) ++ rest))).bind parseJson? = none := by
  obtain ⟨high, hlength, hhigh, heq⟩ := exists_numberBytes_eq_append hn
  have hbytes : lengthPrefixed (0x20 :: numberBytes n) =
      0x0b :: 0x20 :: (high ++ [255, 255, 255, 255, 1]) := by
    rw [lengthPrefixed, heq, varintBytes_of_lt (by simp [hlength])]
    simp [hlength]
  have hmarks : high.countP isMark = 0 := by
    rw [List.countP_eq_zero]
    intro b hb
    rw [isMark_eq_false (hhigh b hb)]
    exact Bool.false_ne_true
  have hforeign : StartsForeign ([255, 255, 255, 255, 1] ++ rest) := ⟨_, _, rfl, rfl, rfl⟩
  rw [hbytes, List.cons_append, List.cons_append, List.append_assoc]
  refine hforeign.bind_parseJson? (0x0a :: 0x0b :: 0x20 :: high) ?_
  simp only [List.countP_cons, hmarks]
  decide

/-- A binary index file is not read as JSON. -/
theorem bind_parseJson?_indexBytes {metadata : Option Metadata} {documents : List Document}
    (hne : indexBytes metadata documents ≠ []) :
    (text? (indexBytes metadata documents)).bind parseJson? = none := by
  unfold indexBytes at hne ⊢
  cases metadata with
  | none =>
    cases documents with
    | nil => exact absurd rfl hne
    | cons d documents =>
      have hforeign : StartsForeign (messageField 2 (documentBytes d)) :=
        startsForeign_tagBytes (by decide) rfl rfl _
      exact (hforeign.append _).bind_parseJson? [] (by decide)
  | some m =>
    rw [Option.elim_some, messageField, tagBytes_of_lt (by decide), List.append_assoc]
    generalize documents.flatMap (fun d => messageField 2 (documentBytes d)) = rest
    rcases m.bytes_cases with hshort | hforeign | ⟨n, hn, hbytes⟩
    · -- The length is the foreign byte.
      rw [lengthPrefixed, List.append_assoc]
      exact (startsForeign_small hshort _).bind_parseJson? [0x0a] (by decide)
    · -- The length has the one mark that may stand before the content.
      rw [lengthPrefixed, ← List.append_assoc, ← List.append_assoc, List.append_assoc _ m.bytes]
      refine (hforeign.append rest).bind_parseJson? _ ?_
      rw [List.countP_append]
      exact Nat.add_le_add (by decide : _ ≤ 0) (countP_isMark_varintBytes _)
    · rw [hbytes]
      exact bind_parseJson?_negative hn rest

/-- A binary index file is decoded to the documents it was written from, whatever metadata it
starts with. -/
theorem decode_indexBytes (metadata : Option Metadata) (documents : List Document)
    (hkind : ∀ d ∈ documents, ∀ r ∈ d.records, r.kind = none)
    (hsize : (indexBytes metadata documents).length < 2 ^ 31) :
    decode (indexBytes metadata documents) = .ok documents := by
  have hparse : parseBinary (indexBytes metadata documents) = .ok documents :=
    parseBinary_indexBytes hkind (by omega)
  unfold decode decodeForm
  by_cases hempty : indexBytes metadata documents = []
  · rw [hempty] at hparse ⊢
    exact hparse
  · rw [if_neg (by simpa using hempty), bind_parseJson?_indexBytes hempty]
    simp only [hparse]
    rfl

/-- Metadata of 123 bytes, whose length is an opening brace. -/
def bracedMetadata : Metadata :=
  { version := 0, toolInfo := none, projectRoot := String.ofList (List.replicate 121 'r'),
    textEncoding := 0 }

/-- A document with a record that has negative numbers. -/
def negativeDocument : Document :=
  { path := "src/a.ts"
    records := [{ symbol := "local 1", roles := -1, range := [0, -5, 300], kind := none }] }

theorem decode_indexBytes_braced :
    (∀ d ∈ [negativeDocument], ∀ r ∈ d.records, r.kind = none) ∧
      (indexBytes (some bracedMetadata) [negativeDocument]).length < 2 ^ 31 ∧
      (indexBytes (some bracedMetadata) [negativeDocument]).take 2 = [0x0a, 0x7b] ∧
      decode (indexBytes (some bracedMetadata) [negativeDocument]) = .ok [negativeDocument] := by
  have hkind : ∀ d ∈ [negativeDocument], ∀ r ∈ d.records, r.kind = none := by decide
  have hsize : (indexBytes (some bracedMetadata) [negativeDocument]).length < 2 ^ 31 := by
    decide +kernel
  exact ⟨hkind, hsize, by decide +kernel, decode_indexBytes _ _ hkind hsize⟩

end SymbolSearch.IndexFile
