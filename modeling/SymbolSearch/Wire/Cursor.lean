/-!
# Reading bytes

Binary messages are read with a cursor: the bytes that are left, the position reached, and the
position where the innermost message ends. That end may lie beyond the data, which then just ends
earlier; outside all messages there is none.

## Main definitions

* `Wire.Fault` — why bytes cannot be read
* `Wire.Cursor` — a place in the data
* `Wire.varint32`, `Wire.varint64` — numbers of variable length
* `Wire.Cursor.block`, `Wire.Cursor.enter` — parts with a length of their own
-/

namespace SymbolSearch.Wire

/-- Why bytes are not a message. -/
inductive Fault where
  /-- A number of variable length has too many bits. -/
  | varint
  /-- The data end too early. -/
  | endOfData
  /-- A number does not fit 32 bits with a sign. -/
  | tooLarge (n : Int)
  /-- A part is longer than the message that holds it. -/
  | truncated
  /-- A text is not encoded as UTF-8. -/
  | text
  /-- Messages nest too deep. -/
  | nesting
  /-- The end of a message lies beyond all positions. -/
  | limitOverflow
  /-- The end of a message lies beyond the end of the message that holds it. -/
  | limitBeyond
  /-- A field has no number or an unknown shape. -/
  | tag
  /-- A group ends that was not begun. -/
  | groupEnd
  deriving DecidableEq, Repr

/-- The words for a fault. -/
def Fault.message : Fault → String
  | .varint => "Incorrect varint"
  | .endOfData => "Unexpected EOF"
  | .tooLarge n => "Value too large for i32: " ++ toString n
  | .truncated => "Truncated message"
  | .text => "Invalid UTF-8 sequence"
  | .nesting => "Over recursion limit"
  | .limitOverflow => "Limit overflow"
  | .limitBeyond => "New limit must not be greater than current limit"
  | .tag => "Incorrect tag"
  | .groupEnd => "Unexpected wire type"

/-- A place in the data. -/
structure Cursor where
  /-- The number of bytes passed. -/
  position : Nat
  /-- The bytes that are left. -/
  rest : List UInt8
  /-- The position where the innermost message ends. -/
  limit : Option Nat
  deriving DecidableEq, Repr

namespace Cursor

/-- The start of the data. -/
def start (bytes : List UInt8) : Cursor := ⟨0, bytes, none⟩

/-- Whether `n` more bytes end within the innermost message. -/
def withinLimit (c : Cursor) (n : Nat) : Bool :=
  match c.limit with
  | some limit => c.position + n ≤ limit
  | none => true

/-- Whether there are `n` more bytes of data. -/
def holds (c : Cursor) (n : Nat) : Bool := n == 0 || !(c.rest.drop (n - 1)).isEmpty

/-- Whether no byte can be read. -/
def atEnd (c : Cursor) : Bool := c.rest.isEmpty || !c.withinLimit 1

/-- The place `n` bytes further on. -/
def advance (c : Cursor) (n : Nat) : Cursor :=
  { c with position := c.position + n, rest := c.rest.drop n }

/-- The next byte. -/
def byte (c : Cursor) : Except Fault (UInt8 × Cursor) :=
  match c.rest with
  | [] => .error .endOfData
  | b :: _ => if c.withinLimit 1 then .ok (b, c.advance 1) else .error .endOfData

/-- The next `n` bytes; `short` is the fault when the data end before the message does. -/
def block (short : Fault) (n : Nat) (c : Cursor) : Except Fault (List UInt8 × Cursor) :=
  if !c.withinLimit n then .error .truncated
  else if !c.holds n then .error short
  else .ok (c.rest.take n, c.advance n)

/-- The place behind `n` bytes of a fixed width. -/
def skipFixed (n : Nat) (c : Cursor) : Except Fault Cursor :=
  if c.withinLimit n && c.holds n then .ok (c.advance n) else .error .endOfData

/-- The place inside a part of `n` bytes. -/
def enter (n : Nat) (c : Cursor) : Except Fault Cursor :=
  if 0x10000000000000000 ≤ c.position + n then .error .limitOverflow
  else if !c.withinLimit n then .error .limitBeyond
  else .ok { c with limit := some (c.position + n) }

/-- The place of `inner` as seen outside the part that was entered at `outer`. -/
def leave (outer inner : Cursor) : Cursor := { inner with limit := outer.limit }

end Cursor

/-! ### Numbers -/

/-- A number of at most `left` more bytes, seven bits each with the lowest first, behind those that
gave `value`. The last byte allowed may not be greater than `last`. -/
def varintFrom (last : UInt8) : Nat → Nat → Nat → Cursor → Except Fault (Nat × Cursor)
  | 0, _, _, _ => .error .varint
  | left + 1, scale, value, c =>
    match c.byte with
    | .error fault => .error fault
    | .ok (b, c) =>
      if left = 0 && last < b then .error .varint
      else if b < 128 then .ok (value + scale * b.toNat, c)
      else varintFrom last left (scale * 128) (value + scale * (b.toNat - 128)) c

/-- A number of at most 32 bits. -/
def varint32 (c : Cursor) : Except Fault (Nat × Cursor) := varintFrom 0x0f 5 1 0 c

/-- A number of at most 64 bits. -/
def varint64 (c : Cursor) : Except Fault (Nat × Cursor) := varintFrom 0x01 10 1 0 c

/-- A number of 64 bits as one with a sign. -/
def signed (n : Nat) : Int :=
  if n < 0x8000000000000000 then n else (n : Int) - 0x10000000000000000

/-- A number of 32 bits with a sign. -/
def int32 (c : Cursor) : Except Fault (Int32 × Cursor) := do
  let (n, c) ← varint64 c
  let n := signed n
  if -0x80000000 ≤ n ∧ n < 0x80000000 then .ok (Int32.ofInt n, c) else .error (.tooLarge n)

/-! ### Texts -/

/-- The length from which on a part that the data cut short counts as truncated. -/
def hugeLength : Nat := 10000000

/-- The bytes of a part behind its length. -/
def lengthBlock (c : Cursor) : Except Fault (List UInt8 × Cursor) := do
  let (n, c) ← varint32 c
  c.block (if hugeLength ≤ n then .truncated else .endOfData) n

/-- A text behind its length. -/
def text (c : Cursor) : Except Fault (String × Cursor) := do
  let (bytes, c) ← lengthBlock c
  match String.fromUTF8? bytes.toByteArray with
  | some s => .ok (s, c)
  | none => .error .text

end SymbolSearch.Wire
