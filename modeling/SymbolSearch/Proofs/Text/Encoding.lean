import SymbolSearch.Text.Blank

/-!
# Texts as bytes

The bytes of a text in UTF-8. A character below 128 is one byte, its own code; of all others every
byte lies between 128 and 254. So bytes below 128 can be read as characters without decoding.

## Main definitions

* `Text.utf8` — the bytes of a text

## Main results

* `Text.fromUTF8?_eq_some_iff` — decoding succeeds on the bytes of a text and gives that text
* `Text.mem_utf8EncodeChar` — the bytes of a character that is not in ASCII
-/

namespace SymbolSearch.Text

/-- The bytes of a text. -/
def utf8 (s : List Char) : List UInt8 := s.flatMap String.utf8EncodeChar

theorem utf8_cons (c : Char) (s : List Char) : utf8 (c :: s) = String.utf8EncodeChar c ++ utf8 s :=
  List.flatMap_cons

theorem utf8_append (s t : List Char) : utf8 (s ++ t) = utf8 s ++ utf8 t :=
  List.flatMap_append

/-- Bytes can be decoded if they are those of a text, and then give that text. -/
theorem fromUTF8?_eq_some_iff {bytes : List UInt8} {s : String} :
    String.fromUTF8? bytes.toByteArray = some s ↔ bytes = utf8 s.toList := by
  have hbytes : (utf8 s.toList).toByteArray = s.toByteArray := String.utf8Encode_toList
  unfold String.fromUTF8?
  constructor
  · intro h
    split at h
    · have hs : s.toByteArray = bytes.toByteArray := by rw [← Option.some.inj h]; rfl
      rw [← List.toByteArray_inj, hbytes, hs]
    · cases h
  · rintro rfl
    rw [hbytes, dif_pos s.isValidUTF8]
    exact congrArg some (String.toByteArray_inj.mp rfl)

theorem toUTF8_ofList (s : List Char) : (String.ofList s).toUTF8.data.toList = utf8 s := by
  have hbytes : (utf8 s).toByteArray = (String.ofList s).toUTF8 := by
    have hencode := String.utf8Encode_toList (b := String.ofList s)
    rw [String.toList_ofList] at hencode
    exact hencode
  rw [← hbytes, List.data_toByteArray]

theorem utf8EncodeChar_of_lt {c : Char} (h : c.toNat < 128) :
    String.utf8EncodeChar c = [UInt8.ofNat c.toNat] :=
  if_pos (Nat.le_of_lt_succ h)

theorem mem_utf8EncodeChar {c : Char} {b : UInt8} (h : 128 ≤ c.toNat)
    (hb : b ∈ String.utf8EncodeChar c) : 128 ≤ b.toNat ∧ b.toNat < 255 := by
  have hval : ¬ c.val.toNat ≤ 0x7f := Nat.not_le.mpr h
  simp only [String.utf8EncodeChar, if_neg hval] at hb
  split at hb
  · simp only [List.mem_cons, List.not_mem_nil, or_false] at hb
    rcases hb with rfl | rfl <;> rw [UInt8.toNat_ofNat'] <;> omega
  · split at hb
    · simp only [List.mem_cons, List.not_mem_nil, or_false] at hb
      rcases hb with rfl | rfl | rfl <;> rw [UInt8.toNat_ofNat'] <;> omega
    · simp only [List.mem_cons, List.not_mem_nil, or_false] at hb
      rcases hb with rfl | rfl | rfl | rfl <;> rw [UInt8.toNat_ofNat'] <;> omega

end SymbolSearch.Text
