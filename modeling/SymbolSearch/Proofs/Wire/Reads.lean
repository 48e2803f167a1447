import Mathlib.Tactic.Ring
import SymbolSearch.Proofs.Text.Encoding
import SymbolSearch.Wire.Message

/-!
# Bytes that read as fields

The written form of numbers, texts and messages, and what the reader makes of it. A stretch of bytes
reads as a list of fields if, wherever it stands and whatever follows it, the reader passes over it
and has those fields in addition. Such stretches can be put behind each other, and a message whose
content reads as some fields reads as one field that holds them.

## Main definitions

* `Wire.varintBytes`, `Wire.numberBytes`, `Wire.textBytes` — numbers and texts as bytes
* `Wire.tagBytes`, `Wire.lengthPrefixed` — what stands before the content of a field
* `Wire.Reads` — a stretch of bytes reads as fields

## Main results

* `Wire.varint32_bytes`, `Wire.varint64_bytes`, `Wire.int32_bytes`, `Wire.text_bytes`,
  `Wire.packed_bytes` — reading back what was written
* `Wire.Reads.append`, `Wire.Reads.message` — stretches in sequence and inside each other
* `Wire.Reads.parse_eq` — a whole file
-/

namespace SymbolSearch.Wire

/-! ### Written forms -/

/-- A number in bytes of seven bits, the lowest first; all but the last have the high bit set. -/
def varintBytes (n : Nat) : List UInt8 :=
  if n < 128 then [UInt8.ofNat n] else UInt8.ofNat (n % 128 + 128) :: varintBytes (n / 128)

/-- A number of 32 bits with a sign, extended to 64 bits. -/
def numberBytes (n : Int32) : List UInt8 := varintBytes (n.toInt % 2 ^ 64).toNat

/-- Bytes behind their number. -/
def lengthPrefixed (bytes : List UInt8) : List UInt8 := varintBytes bytes.length ++ bytes

/-- A text behind the number of its bytes. -/
def textBytes (s : String) : List UInt8 := lengthPrefixed (Text.utf8 s.toList)

/-- The tag of a field: its number and the number of its layout. -/
def tagBytes (field layout : Nat) : List UInt8 := varintBytes (field * 8 + layout)

variable {n : Nat}

theorem varintBytes_of_lt (h : n < 128) : varintBytes n = [UInt8.ofNat n] := by
  rw [varintBytes, if_pos h]

theorem varintBytes_of_not_lt (h : ¬ n < 128) :
    varintBytes n = UInt8.ofNat (n % 128 + 128) :: varintBytes (n / 128) := by
  rw [varintBytes, if_neg h]

theorem length_varintBytes_pos (n : Nat) : 0 < (varintBytes n).length := by
  rw [varintBytes]
  split <;> simp

theorem toNat_lastByte (h : n < 128) : (UInt8.ofNat n).toNat = n := by
  rw [UInt8.toNat_ofNat']
  omega

theorem toNat_highByte (n : Nat) : (UInt8.ofNat (n % 128 + 128)).toNat = n % 128 + 128 := by
  rw [UInt8.toNat_ofNat']
  omega

theorem lastByte_lt (h : n < 128) : UInt8.ofNat n < 128 := by
  rw [UInt8.lt_iff_toNat_lt, toNat_lastByte h]
  exact h

theorem not_highByte_lt (n : Nat) : ¬ UInt8.ofNat (n % 128 + 128) < 128 := by
  rw [UInt8.lt_iff_toNat_lt, toNat_highByte]
  exact Nat.not_lt.mpr (Nat.le_add_left 128 _)

/-- A number below `128 ^ (k + 1)` has at most `k + 1` bytes. -/
theorem length_varintBytes_le {k : Nat} (h : n < 128 ^ (k + 1)) :
    (varintBytes n).length ≤ k + 1 := by
  induction k generalizing n with
  | zero => rw [varintBytes_of_lt (by simpa using h)]; rfl
  | succ k ih =>
    by_cases hn : n < 128
    · rw [varintBytes_of_lt hn]
      simp
    · rw [varintBytes_of_not_lt hn, List.length_cons]
      refine Nat.succ_le_succ (ih ?_)
      rw [Nat.div_lt_iff_lt_mul (by decide)]
      calc n < 128 ^ (k + 1 + 1) := h
        _ = 128 ^ (k + 1) * 128 := by ring

/-- The first `k` bytes of a number from `128 ^ k` on have the high bit set. -/
theorem exists_varintBytes_eq_append {k : Nat} (h : 128 ^ k ≤ n) :
    ∃ high, high.length = k ∧ (∀ b ∈ high, 128 ≤ b.toNat) ∧
      varintBytes n = high ++ varintBytes (n / 128 ^ k) := by
  induction k generalizing n with
  | zero => exact ⟨[], rfl, by simp, by simp⟩
  | succ k ih =>
    have hpow : 128 ^ (k + 1) = 128 ^ k * 128 := by ring
    have hn : ¬ n < 128 := by
      have := Nat.one_le_pow k 128 (by decide)
      omega
    obtain ⟨high, hlength, hhigh, heq⟩ := ih ((Nat.le_div_iff_mul_le (by decide)).mpr (hpow ▸ h))
    refine ⟨UInt8.ofNat (n % 128 + 128) :: high, by rw [List.length_cons, hlength], ?_, ?_⟩
    · intro b hb
      rcases List.mem_cons.mp hb with rfl | hb
      · rw [toNat_highByte]
        exact Nat.le_add_left 128 _
      · exact hhigh b hb
    · rw [varintBytes_of_not_lt hn, heq, Nat.div_div_eq_div_mul, List.cons_append, hpow,
        Nat.mul_comm (128 ^ k)]

/-- Only the last byte of a number is below 128. -/
theorem countP_varintBytes (n : Nat) : (varintBytes n).countP (fun b => b < 128) = 1 := by
  induction n using Nat.strongRecOn with
  | ind n ih =>
    by_cases hn : n < 128
    · rw [varintBytes_of_lt hn, List.countP_singleton, if_pos (decide_eq_true (lastByte_lt hn))]
    · have hhigh := decide_eq_false (not_highByte_lt n)
      rw [varintBytes_of_not_lt hn, List.countP_cons, hhigh, ih (n / 128) (by omega)]
      rfl

/-! ### Room before a limit -/

/-- A limit, where there is one, does not lie before `stop`. -/
def Within (limit : Option Nat) (stop : Nat) : Prop := ∀ l ∈ limit, stop ≤ l

theorem Within.mono {limit : Option Nat} {stop stop' : Nat} (h : Within limit stop)
    (hle : stop' ≤ stop) : Within limit stop' :=
  fun l hl => hle.trans (h l hl)

theorem within_none (stop : Nat) : Within none stop := by
  intro l hl
  cases hl

theorem within_some {l stop : Nat} (h : stop ≤ l) : Within (some l) stop := by
  intro l' hl'
  cases hl'
  exact h

variable {p : Nat} {rest t bytes : List UInt8} {limit : Option Nat}

theorem withinLimit_of_within (h : Within limit (p + n)) :
    (Cursor.mk p rest limit).withinLimit n = true := by
  unfold Cursor.withinLimit
  cases limit with
  | none => rfl
  | some l => exact decide_eq_true (h l rfl)

theorem byte_cons {b : UInt8} (h : Within limit (p + 1)) :
    (Cursor.mk p (b :: t) limit).byte = .ok (b, ⟨p + 1, t, limit⟩) := by
  unfold Cursor.byte
  simp only [withinLimit_of_within h, if_true]
  rfl

theorem advance_append :
    (Cursor.mk p (bytes ++ t) limit).advance bytes.length = ⟨p + bytes.length, t, limit⟩ := by
  simp [Cursor.advance]

theorem atEnd_eq_false {b : UInt8} (h : Within limit (p + 1)) :
    (Cursor.mk p (b :: t) limit).atEnd = false := by
  simp [Cursor.atEnd, withinLimit_of_within h]

/-- A number takes a byte, so the reader is not at the end before it. -/
theorem atEnd_varintBytes (h : Within limit (p + (varintBytes n).length)) :
    (Cursor.mk p (varintBytes n ++ t) limit).atEnd = false := by
  have hpos := length_varintBytes_pos n
  obtain ⟨b, bs, hb⟩ := List.exists_cons_of_length_pos hpos
  rw [hb]
  exact atEnd_eq_false (h.mono (by omega))

theorem atEnd_at_limit : (Cursor.mk p t (some p)).atEnd = true := by
  simp [Cursor.atEnd, Cursor.withinLimit]

/-! ### Numbers -/

/-- A byte without the high bit ends a number. -/
theorem varintFrom_lastByte {last : UInt8} {left : Nat} (scale value : Nat) (hsmall : n < 128)
    (hlast : left = 0 → n ≤ last.toNat) (hlimit : Within limit (p + 1)) :
    varintFrom last (left + 1) scale value ⟨p, UInt8.ofNat n :: t, limit⟩ =
      .ok (value + scale * n, ⟨p + 1, t, limit⟩) := by
  have hle : ¬ (left = 0 ∧ last < UInt8.ofNat n) := by
    rintro ⟨hleft, hlt⟩
    rw [UInt8.lt_iff_toNat_lt, toNat_lastByte hsmall] at hlt
    exact Nat.not_lt.mpr (hlast hleft) hlt
  rw [varintFrom, byte_cons hlimit]
  simp [hle, lastByte_lt hsmall, toNat_lastByte hsmall]

/-- A number that fits the bytes that are left is read back behind what was read before. The
induction is on the number of further bytes allowed. -/
theorem varintFrom_bytes {last : UInt8} (hlast : last.toNat < 128) (left scale value n p : Nat)
    (hn : n < 128 ^ left * (last.toNat + 1))
    (hlimit : Within limit (p + (varintBytes n).length)) :
    varintFrom last (left + 1) scale value ⟨p, varintBytes n ++ t, limit⟩ =
      .ok (value + scale * n, ⟨p + (varintBytes n).length, t, limit⟩) := by
  induction left generalizing scale value n p with
  | zero =>
    have hsmall : n < 128 := by omega
    rw [varintBytes_of_lt hsmall] at hlimit ⊢
    exact varintFrom_lastByte scale value hsmall (fun _ => by omega) hlimit
  | succ left ih =>
    by_cases hsmall : n < 128
    · rw [varintBytes_of_lt hsmall] at hlimit ⊢
      exact varintFrom_lastByte scale value hsmall (fun h => absurd h (Nat.succ_ne_zero left))
        hlimit
    · have hrest : n / 128 < 128 ^ left * (last.toNat + 1) := by
        rw [Nat.div_lt_iff_lt_mul (by decide)]
        calc n < 128 ^ (left + 1) * (last.toNat + 1) := hn
          _ = 128 ^ left * (last.toNat + 1) * 128 := by ring
      have hvalue : value + scale * (n % 128 + 128 - 128) + scale * 128 * (n / 128) =
          value + scale * n := by
        rw [Nat.add_sub_cancel, Nat.add_assoc, Nat.mul_assoc, ← Nat.mul_add, Nat.mod_add_div]
      rw [varintBytes_of_not_lt hsmall, List.length_cons] at hlimit ⊢
      rw [varintFrom, List.cons_append, byte_cons (hlimit.mono (by omega))]
      simp only [Nat.add_eq_zero_iff, one_ne_zero, and_false, decide_false, Bool.false_and,
        Bool.false_eq_true, if_false, not_highByte_lt]
      rw [ih _ _ _ _ hrest (hlimit.mono (by omega)), toNat_highByte, hvalue, Nat.add_assoc,
        Nat.add_comm 1]

theorem varint32_bytes (hn : n < 2 ^ 32) (hlimit : Within limit (p + (varintBytes n).length)) :
    varint32 ⟨p, varintBytes n ++ t, limit⟩ = .ok (n, ⟨p + (varintBytes n).length, t, limit⟩) := by
  rw [varint32, varintFrom_bytes (by decide) 4 1 0 n p (by simpa using hn) hlimit]
  simp

theorem varint64_bytes (hn : n < 2 ^ 64) (hlimit : Within limit (p + (varintBytes n).length)) :
    varint64 ⟨p, varintBytes n ++ t, limit⟩ = .ok (n, ⟨p + (varintBytes n).length, t, limit⟩) := by
  rw [varint64, varintFrom_bytes (by decide) 9 1 0 n p (by simpa using hn) hlimit]
  simp

/-- The 64 bits of a number of 32 bits stand for that number. -/
theorem signed_extended (n : Int32) : signed (n.toInt % 2 ^ 64).toNat = n.toInt := by
  have hlow := n.le_toInt
  have hhigh := n.toInt_lt
  unfold signed
  split <;> omega

theorem int32_bytes {n : Int32} (hlimit : Within limit (p + (numberBytes n).length)) :
    int32 ⟨p, numberBytes n ++ t, limit⟩ = .ok (n, ⟨p + (numberBytes n).length, t, limit⟩) := by
  have hread : varint64 ⟨p, numberBytes n ++ t, limit⟩ =
      .ok ((n.toInt % 2 ^ 64).toNat, ⟨p + (numberBytes n).length, t, limit⟩) :=
    varint64_bytes (by omega) hlimit
  have hrange : -0x80000000 ≤ n.toInt ∧ n.toInt < 0x80000000 := ⟨n.le_toInt, n.toInt_lt⟩
  simp only [int32, hread, bind, Except.bind, signed_extended]
  rw [if_pos hrange, Int32.ofInt_toInt]

/-! ### Parts with a length -/

theorem block_append (short : Fault) (hlimit : Within limit (p + bytes.length)) :
    (Cursor.mk p (bytes ++ t) limit).block short bytes.length =
      .ok (bytes, ⟨p + bytes.length, t, limit⟩) := by
  have hholds : (Cursor.mk p (bytes ++ t) limit).holds bytes.length = true := by
    cases bytes with
    | nil => rfl
    | cons b bytes =>
      have hrest : (b :: bytes ++ t).drop bytes.length ≠ [] := by
        rw [ne_eq, List.drop_eq_nil_iff, List.length_append, List.length_cons]
        omega
      rw [Cursor.holds, List.length_cons, Nat.add_sub_cancel, List.isEmpty_eq_false_iff.mpr hrest]
      exact Bool.or_true _
  rw [Cursor.block, withinLimit_of_within hlimit, hholds, advance_append, List.take_left]
  rfl

theorem enter_of_within (rest : List UInt8) (hsmall : p + n < 2 ^ 64)
    (hlimit : Within limit (p + n)) :
    (Cursor.mk p rest limit).enter n = .ok ⟨p, rest, some (p + n)⟩ := by
  have hfits : ¬ 0x10000000000000000 ≤ p + n := by omega
  rw [Cursor.enter, if_neg hfits, withinLimit_of_within hlimit]
  rfl

theorem text_bytes {s : String} (hn : (Text.utf8 s.toList).length < 2 ^ 32)
    (hlimit : Within limit (p + (textBytes s).length)) :
    text ⟨p, textBytes s ++ t, limit⟩ = .ok (s, ⟨p + (textBytes s).length, t, limit⟩) := by
  rw [textBytes, lengthPrefixed, List.length_append] at hlimit ⊢
  rw [← Nat.add_assoc] at hlimit ⊢
  have hlength := varint32_bytes (t := Text.utf8 s.toList ++ t) hn
    (hlimit.mono (Nat.le_add_right _ _))
  simp only [text, lengthBlock, List.append_assoc, hlength, bind, Except.bind,
    block_append _ hlimit, Text.fromUTF8?_eq_some_iff.mpr rfl]

/-- Numbers up to the end of their part. The fuel is enough because every number takes a byte. -/
theorem packedFrom_bytes (ns read : List Int32) (fuel p : Nat)
    (hfuel : (ns.flatMap numberBytes).length ≤ fuel) :
    packedFrom fuel read
        ⟨p, ns.flatMap numberBytes ++ t, some (p + (ns.flatMap numberBytes).length)⟩ =
      .ok (read.reverse ++ ns, ⟨p + (ns.flatMap numberBytes).length, t,
        some (p + (ns.flatMap numberBytes).length)⟩) := by
  induction ns generalizing read fuel p with
  | nil =>
    cases fuel with
    | zero => simp [packedFrom]
    | succ fuel => simp [packedFrom, atEnd_at_limit]
  | cons n ns ih =>
    have hpos : 0 < (numberBytes n).length := length_varintBytes_pos _
    rw [List.flatMap_cons, List.length_append] at hfuel ⊢
    obtain ⟨fuel, rfl⟩ : ∃ k, fuel = k + 1 := ⟨fuel - 1, by omega⟩
    have hlimit : Within (some (p + ((numberBytes n).length + (ns.flatMap numberBytes).length)))
        (p + (numberBytes n).length) := within_some (by omega)
    have hmore : (Cursor.mk p (numberBytes n ++ (ns.flatMap numberBytes ++ t))
        (some (p + ((numberBytes n).length + (ns.flatMap numberBytes).length)))).atEnd = false :=
      atEnd_varintBytes hlimit
    rw [packedFrom, List.append_assoc, hmore, int32_bytes hlimit]
    simp only [Bool.false_eq_true, if_false, bind, Except.bind]
    rw [← Nat.add_assoc, ih (n :: read) fuel _ (by omega)]
    simp

theorem packed_bytes {ns : List Int32} {fuel : Nat}
    (hn : p + (lengthPrefixed (ns.flatMap numberBytes)).length < 2 ^ 32)
    (hfuel : (ns.flatMap numberBytes).length ≤ fuel)
    (hlimit : Within limit (p + (lengthPrefixed (ns.flatMap numberBytes)).length)) :
    packed fuel ⟨p, lengthPrefixed (ns.flatMap numberBytes) ++ t, limit⟩ =
      .ok (ns, ⟨p + (lengthPrefixed (ns.flatMap numberBytes)).length, t, limit⟩) := by
  generalize hbytes : ns.flatMap numberBytes = bytes at *
  rw [lengthPrefixed, List.length_append, ← Nat.add_assoc] at hn hlimit ⊢
  have hlength := varint64_bytes (t := bytes ++ t) (by omega : bytes.length < 2 ^ 64)
    (hlimit.mono (Nat.le_add_right _ _))
  have henter := enter_of_within (bytes ++ t) (by omega) hlimit
  have hread := packedFrom_bytes (t := t) ns [] fuel (p + (varintBytes bytes.length).length)
    (by rw [hbytes]; exact hfuel)
  rw [hbytes] at hread
  simp only [packed, List.append_assoc, hlength, henter, hread, bind, Except.bind]
  rfl

/-! ### Fields -/

/-- The reader of the messages inside a message that may hold `depth` levels of them. -/
def nestedAt : Nat → MessageReader
  | 0 => fun _ _ _ => .error .nesting
  | depth + 1 => readNested (readMessage depth)

theorem nestedAt_succ (depth : Nat) : nestedAt (depth + 1) = readNested (readMessage depth) := rfl

theorem readMessage_eq (depth fuel : Nat) (type : MessageType) (c : Cursor) :
    readMessage depth fuel type c = readFields (nestedAt depth) type fuel [] c := by
  cases depth <;> rfl

theorem readFields_of_atEnd {nested : MessageReader} {type : MessageType} {c : Cursor}
    (h : c.atEnd = true) (fuel : Nat) (read : Fields) :
    readFields nested type fuel read c = .ok (read.reverse, c) := by
  cases fuel with
  | zero => rfl
  | succ fuel => rw [readFields, if_pos h]

/-- Wherever `bytes` stand in a message of a type, and whatever follows them, the reader passes over
them and has `fields` in addition to what it had. It needs no more fuel than there are bytes. -/
def Reads (depth : Nat) (type : MessageType) (bytes : List UInt8) (fields : Fields) : Prop :=
  ∀ (fuel p : Nat) (read : Fields) (t : List UInt8) (limit : Option Nat),
    bytes.length ≤ fuel → p + bytes.length < 2 ^ 32 → Within limit (p + bytes.length) →
    ∃ fuel', fuel ≤ fuel' + bytes.length ∧
      readFields (nestedAt depth) type fuel read ⟨p, bytes ++ t, limit⟩ =
        readFields (nestedAt depth) type fuel' (fields.reverse ++ read)
          ⟨p + bytes.length, t, limit⟩

namespace Reads

variable {depth field layout : Nat} {type : MessageType} {fields : Fields} {content : List UInt8}

theorem nil : Reads depth type [] [] :=
  fun fuel _ _ _ _ _ _ _ => ⟨fuel, Nat.le_refl _, rfl⟩

theorem append {bytes bytes' : List UInt8} {fields fields' : Fields}
    (h : Reads depth type bytes fields) (h' : Reads depth type bytes' fields') :
    Reads depth type (bytes ++ bytes') (fields ++ fields') := by
  intro fuel p read t limit hfuel hsmall hlimit
  rw [List.length_append] at hfuel hsmall hlimit ⊢
  rw [← Nat.add_assoc] at hsmall hlimit ⊢
  obtain ⟨fuel₁, hfuel₁, hread₁⟩ := h fuel p read (bytes' ++ t) limit (by omega) (by omega)
    (hlimit.mono (Nat.le_add_right _ _))
  obtain ⟨fuel₂, hfuel₂, hread₂⟩ := h' fuel₁ (p + bytes.length) (fields.reverse ++ read) t limit
    (by omega) hsmall hlimit
  refine ⟨fuel₂, by omega, ?_⟩
  rw [List.append_assoc, hread₁, hread₂, List.reverse_append, List.append_assoc]

theorem flatMap {α : Type*} {xs : List α} {f : α → List UInt8} {g : α → Fields}
    (h : ∀ x ∈ xs, Reads depth type (f x) (g x)) :
    Reads depth type (xs.flatMap f) (xs.flatMap g) := by
  induction xs with
  | nil => exact nil
  | cons x xs ih =>
    exact (h x List.mem_cons_self).append (ih fun y hy => h y (List.mem_cons_of_mem x hy))

/-- A field that is left out under a condition. -/
theorem optional {bytes : List UInt8} (c : Prop) [Decidable c] (h : Reads depth type bytes fields) :
    Reads depth type (if c then [] else bytes) (if c then [] else fields) := by
  split
  · exact nil
  · exact h

/-- A tag and a content that is read under this tag. -/
theorem of_readField (htag : field * 8 + layout < 2 ^ 32)
    (h : ∀ (fuel p : Nat) (t : List UInt8) (limit : Option Nat),
      content.length ≤ fuel → p + content.length < 2 ^ 32 → Within limit (p + content.length) →
      readField (nestedAt depth) type fuel (field * 8 + layout) ⟨p, content ++ t, limit⟩ =
        .ok (fields, ⟨p + content.length, t, limit⟩)) :
    Reads depth type (tagBytes field layout ++ content) fields := by
  intro fuel p read t limit hfuel hsmall hlimit
  have hpos : 0 < (tagBytes field layout).length := length_varintBytes_pos _
  rw [List.length_append] at hfuel hsmall hlimit ⊢
  rw [← Nat.add_assoc] at hsmall hlimit ⊢
  obtain ⟨fuel, rfl⟩ : ∃ k, fuel = k + 1 := ⟨fuel - 1, by omega⟩
  have hmore : (Cursor.mk p (tagBytes field layout ++ (content ++ t)) limit).atEnd = false :=
    atEnd_varintBytes (hlimit.mono (Nat.le_add_right _ _))
  have hread : varint32 ⟨p, tagBytes field layout ++ (content ++ t), limit⟩ =
      .ok (field * 8 + layout, ⟨p + (tagBytes field layout).length, content ++ t, limit⟩) :=
    varint32_bytes htag (hlimit.mono (Nat.le_add_right _ _))
  refine ⟨fuel, by omega, ?_⟩
  rw [List.append_assoc, readFields, hmore]
  simp only [Bool.false_eq_true, if_false, hread, bind, Except.bind,
    h fuel _ t limit (by omega) hsmall hlimit]

/-- The numbers of known fields are small, so that their tags are numbers of 32 bits. -/
private theorem tag_lt {held : FieldType} (hfield : type.field? field = some held)
    (hlayout : layout < 8) : field * 8 + layout < 2 ^ 32 := by
  have hsmall : field < 16 := by
    unfold MessageType.field? at hfield
    split at hfield
    all_goals first | decide | cases hfield
  omega

/-- What a tag says is its field and its layout. -/
private theorem tag_parts (field : Nat) (hlayout : layout < 8) :
    (field * 8 + layout) / 8 = field ∧ (field * 8 + layout) % 8 = layout := by
  omega

theorem number (hfield : type.field? field = some .number) (n : Int32) :
    Reads depth type (tagBytes field 0 ++ numberBytes n) [(field, .number n)] := by
  refine of_readField (tag_lt hfield (by decide)) fun fuel p t limit _ _ hlimit => ?_
  obtain ⟨hnumber, hlayout⟩ := tag_parts field (show 0 < 8 by decide)
  simp only [readField, hnumber, hlayout, hfield, int32_bytes hlimit, bind, Except.bind]
  rfl

theorem packed (hfield : type.field? field = some .numbers) (ns : List Int32) :
    Reads depth type (tagBytes field 2 ++ lengthPrefixed (ns.flatMap numberBytes))
      (ns.map fun n => (field, .number n)) := by
  refine of_readField (tag_lt hfield (by decide)) fun fuel p t limit hfuel hsmall hlimit => ?_
  obtain ⟨hnumber, hlayout⟩ := tag_parts field (show 2 < 8 by decide)
  have hinner : (ns.flatMap numberBytes).length ≤ fuel := by
    rw [lengthPrefixed, List.length_append] at hfuel
    omega
  simp only [readField, hnumber, hlayout, hfield, packed_bytes hsmall hinner hlimit, bind,
    Except.bind]
  rfl

theorem text (hfield : type.field? field = some .text) (s : String) :
    Reads depth type (tagBytes field 2 ++ textBytes s) [(field, .text s)] := by
  refine of_readField (tag_lt hfield (by decide)) fun fuel p t limit _ hsmall hlimit => ?_
  obtain ⟨hnumber, hlayout⟩ := tag_parts field (show 2 < 8 by decide)
  have hlength : (Text.utf8 s.toList).length < 2 ^ 32 := by
    rw [textBytes, lengthPrefixed, List.length_append] at hsmall
    omega
  simp only [readField, hnumber, hlayout, hfield, text_bytes hlength hlimit, bind, Except.bind]
  rfl

/-- A message inside a message: its content is read up to its own end. -/
theorem message {inner : MessageType} (hfield : type.field? field = some (.message inner))
    (h : Reads depth inner content fields) :
    Reads (depth + 1) type (tagBytes field 2 ++ lengthPrefixed content)
      [(field, .message fields)] := by
  refine of_readField (tag_lt hfield (by decide)) fun fuel p t limit hfuel hsmall hlimit => ?_
  rw [lengthPrefixed, List.length_append] at hfuel hsmall hlimit ⊢
  rw [← Nat.add_assoc] at hsmall hlimit ⊢
  obtain ⟨hnumber, hlayout⟩ := tag_parts field (show 2 < 8 by decide)
  have hlength := varint64_bytes (t := content ++ t) (by omega : content.length < 2 ^ 64)
    (hlimit.mono (Nat.le_add_right _ _))
  have henter := enter_of_within (content ++ t) (by omega) hlimit
  obtain ⟨fuel', _, hread⟩ := h fuel (p + (varintBytes content.length).length) [] t
    (some (p + (varintBytes content.length).length + content.length)) (by omega) hsmall
    (within_some (Nat.le_refl _))
  rw [readFields_of_atEnd atEnd_at_limit, List.append_nil, List.reverse_reverse] at hread
  simp only [readField, hnumber, hlayout, hfield, nestedAt_succ, readNested, List.append_assoc,
    hlength, henter, readMessage_eq, hread, bind, Except.bind]
  rfl

/-- A whole file, which has no limit but its end. -/
theorem parse_eq {bytes : List UInt8} (h : Reads maxNesting .index bytes fields)
    (hsmall : bytes.length < 2 ^ 32) : parse bytes = .ok fields := by
  obtain ⟨fuel', _, hread⟩ := h bytes.length 0 [] [] none (Nat.le_refl _) (by omega)
    (within_none _)
  rw [readFields_of_atEnd (c := ⟨0 + bytes.length, [], none⟩) rfl, List.append_nil,
    List.append_nil, List.reverse_reverse] at hread
  simp only [parse, readMessage_eq, Cursor.start, hread, bind, Except.bind]
  rfl

end Reads

end SymbolSearch.Wire
