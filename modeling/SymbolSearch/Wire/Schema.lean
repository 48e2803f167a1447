/-!
# The messages of an index file

A binary index file is a tree of messages. A message is a list of numbered fields, and its type says
what each number stands for.

## Main definitions

* `Wire.MessageType` — the types of messages
* `Wire.FieldType` — what a field holds
* `Wire.MessageType.field?` — the field with a number
-/

namespace SymbolSearch.Wire

/-- The types of messages in an index file. -/
inductive MessageType where
  | index
  | metadata
  | toolInfo
  | document
  | symbolInformation
  | relationship
  | occurrence
  | diagnostic
  deriving DecidableEq, Repr

/-- What a field of a message holds. -/
inductive FieldType where
  /-- An integer or the number of an enumerated value. -/
  | number
  /-- Any count of those, one by one or packed together. -/
  | numbers
  /-- A truth value. -/
  | flag
  /-- A text. -/
  | text
  /-- A message. -/
  | message (type : MessageType)
  deriving DecidableEq, Repr

/-- The field of a message type that has the given number. -/
def MessageType.field? : MessageType → Nat → Option FieldType
  | index, 1 => some (.message metadata)
  | index, 2 => some (.message document)
  | index, 3 => some (.message symbolInformation)
  | metadata, 1 => some .number
  | metadata, 2 => some (.message toolInfo)
  | metadata, 3 => some .text
  | metadata, 4 => some .number
  | toolInfo, 1 => some .text
  | toolInfo, 2 => some .text
  | toolInfo, 3 => some .text
  | document, 1 => some .text
  | document, 2 => some (.message occurrence)
  | document, 3 => some (.message symbolInformation)
  | document, 4 => some .text
  | document, 5 => some .text
  | document, 6 => some .number
  | symbolInformation, 1 => some .text
  | symbolInformation, 3 => some .text
  | symbolInformation, 4 => some (.message relationship)
  | symbolInformation, 5 => some .number
  | symbolInformation, 6 => some .text
  | symbolInformation, 7 => some (.message document)
  | symbolInformation, 8 => some .text
  | relationship, 1 => some .text
  | relationship, 2 => some .flag
  | relationship, 3 => some .flag
  | relationship, 4 => some .flag
  | relationship, 5 => some .flag
  | occurrence, 1 => some .numbers
  | occurrence, 2 => some .text
  | occurrence, 3 => some .number
  | occurrence, 4 => some .text
  | occurrence, 5 => some .number
  | occurrence, 6 => some (.message diagnostic)
  | occurrence, 7 => some .numbers
  | diagnostic, 1 => some .number
  | diagnostic, 2 => some .text
  | diagnostic, 3 => some .text
  | diagnostic, 4 => some .text
  | diagnostic, 5 => some .numbers
  | _, _ => none

end SymbolSearch.Wire
