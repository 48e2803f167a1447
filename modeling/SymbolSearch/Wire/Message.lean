import SymbolSearch.Wire.Cursor
import SymbolSearch.Wire.Schema

/-!
# Reading messages

A message is read field by field until its end or the end of the data. Every field is read in full,
so that a fault anywhere counts; fields that the message type does not know are passed over.

## Main definitions

* `Wire.Value` — what a field holds
* `Wire.skipUnknown` — passing over a field
* `Wire.readMessage` — reading a message
* `Wire.parse` — the fields of a whole index file
-/

namespace SymbolSearch.Wire

/-- What a field holds: a number, a truth value, a text, or the numbered fields of a message. -/
inductive Value where
  | number (n : Int32)
  | flag (b : Bool)
  | text (s : String)
  | message (fields : List (Nat × Value))

/-- The numbered fields of a message, in the order they were read. -/
abbrev Fields := List (Nat × Value)

namespace Fields

/-- The texts under a number. -/
def texts (fields : Fields) (number : Nat) : List String :=
  fields.filterMap fun
    | (n, .text s) => if n = number then some s else none
    | _ => none

/-- The numbers under a number. -/
def numbers (fields : Fields) (number : Nat) : List Int32 :=
  fields.filterMap fun
    | (n, .number v) => if n = number then some v else none
    | _ => none

/-- The messages under a number. -/
def messages (fields : Fields) (number : Nat) : List Fields :=
  fields.filterMap fun
    | (n, .message m) => if n = number then some m else none
    | _ => none

end Fields

/-! ### Unknown fields -/

/-- How the content of a field is laid out. -/
inductive WireType where
  | varint
  | fixed64
  | block
  | groupStart
  | groupEnd
  | fixed32
  deriving DecidableEq, Repr

/-- The layout by its number. -/
def WireType.ofNat? : Nat → Option WireType
  | 0 => some .varint
  | 1 => some .fixed64
  | 2 => some .block
  | 3 => some .groupStart
  | 4 => some .groupEnd
  | 5 => some .fixed32
  | _ => none

/-- The layout that a tag tells, unless it has no field number or an unknown layout. -/
def layout (tag : Nat) : Except Fault WireType :=
  match WireType.ofNat? (tag % 8) with
  | some type => if tag / 8 = 0 then .error .tag else .ok type
  | none => .error .tag

/-- The place behind a number. -/
def skipVarint (c : Cursor) : Except Fault Cursor := do
  let (_, c) ← varint64 c
  return c

/-- The place behind a block inside a group. -/
def skipInnerBlock (c : Cursor) : Except Fault Cursor := do
  let (n, c) ← varint32 c
  let (_, c) ← c.block .endOfData n
  return c

/-- The place behind a group that holds `depth` open groups. Any end of a group closes the innermost
one. The fuel is the number of fields that can still come. -/
def skipGroup : Nat → Nat → Cursor → Except Fault Cursor
  | 0, _, _ => .error .endOfData
  | fuel + 1, depth, c => do
    let (tag, c) ← varint32 c
    match ← layout tag with
    | .groupEnd =>
      match depth with
      | 0 => return c
      | outer + 1 => skipGroup fuel outer c
    | .groupStart => skipGroup fuel (depth + 1) c
    | .varint => skipGroup fuel depth (← skipVarint c)
    | .fixed64 => skipGroup fuel depth (← c.skipFixed 8)
    | .fixed32 => skipGroup fuel depth (← c.skipFixed 4)
    | .block => skipGroup fuel depth (← skipInnerBlock c)

/-- The place behind an unknown field with the given tag. -/
def skipUnknown (fuel tag : Nat) (c : Cursor) : Except Fault Cursor := do
  match ← layout tag with
  | .varint => skipVarint c
  | .fixed64 => c.skipFixed 8
  | .fixed32 => c.skipFixed 4
  | .block =>
    let (_, c) ← lengthBlock c
    return c
  | .groupStart => skipGroup fuel 0 c
  | .groupEnd => .error .groupEnd

/-! ### Known fields -/

/-- Numbers up to the end of the part they are packed in, behind those already read. -/
def packedFrom : Nat → List Int32 → Cursor → Except Fault (List Int32 × Cursor)
  | 0, read, c => .ok (read.reverse, c)
  | fuel + 1, read, c =>
    if c.atEnd then .ok (read.reverse, c)
    else do
      let (n, c) ← int32 c
      packedFrom fuel (n :: read) c

/-- Packed numbers behind their length. -/
def packed (fuel : Nat) (c : Cursor) : Except Fault (List Int32 × Cursor) := do
  let (n, c) ← varint64 c
  let inside ← c.enter n
  let (values, after) ← packedFrom fuel [] inside
  return (values, Cursor.leave c after)

/-- What reads a message of a type behind its tag, given fuel. -/
abbrev MessageReader := Nat → MessageType → Cursor → Except Fault (Fields × Cursor)

/-- The content of a field with the given tag, as fields under its number. -/
def readField (nested : MessageReader) (type : MessageType) (fuel tag : Nat) (c : Cursor) :
    Except Fault (Fields × Cursor) := do
  let number := tag / 8
  match type.field? number, tag % 8 with
  | some .number, 0 =>
    let (n, c) ← int32 c
    return ([(number, .number n)], c)
  | some .numbers, 0 =>
    let (n, c) ← int32 c
    return ([(number, .number n)], c)
  | some .numbers, 2 =>
    let (values, c) ← packed fuel c
    return (values.map fun n => (number, .number n), c)
  | some .flag, 0 =>
    let (n, c) ← varint64 c
    return ([(number, .flag (n != 0))], c)
  | some .text, 2 =>
    let (s, c) ← text c
    return ([(number, .text s)], c)
  | some (.message inner), 2 =>
    let (fields, c) ← nested fuel inner c
    return ([(number, .message fields)], c)
  | _, _ =>
    let c ← skipUnknown fuel tag c
    return ([], c)

/-- The fields of a message up to its end, behind those already read, in reverse. -/
def readFields (nested : MessageReader) (type : MessageType) :
    Nat → Fields → Cursor → Except Fault (Fields × Cursor)
  | 0, read, c => .ok (read.reverse, c)
  | fuel + 1, read, c =>
    if c.atEnd then .ok (read.reverse, c)
    else do
      let (tag, c) ← varint32 c
      let (fields, c) ← readField nested type fuel tag c
      readFields nested type fuel (fields.reverse ++ read) c

/-- A message behind its length, whose fields are read by `inner`. -/
def readNested (inner : MessageReader) : MessageReader := fun fuel type c => do
  let (n, c) ← varint64 c
  let inside ← c.enter n
  let (fields, after) ← inner fuel type inside
  return (fields, Cursor.leave c after)

/-- A message that may hold messages up to `depth` levels deep. Every field takes at least one byte,
so the number of bytes is fuel enough. -/
def readMessage : Nat → MessageReader
  | 0 => fun fuel type c => readFields (fun _ _ _ => .error .nesting) type fuel [] c
  | depth + 1 => fun fuel type c => readFields (readNested (readMessage depth)) type fuel [] c

/-- How deep messages may nest in the index. -/
def maxNesting : Nat := 100

/-- The fields of a whole index file. -/
def parse (bytes : List UInt8) : Except Fault Fields := do
  let (fields, _) ← readMessage maxNesting bytes.length .index (Cursor.start bytes)
  return fields

end SymbolSearch.Wire
