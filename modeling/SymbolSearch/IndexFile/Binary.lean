import SymbolSearch.Document
import SymbolSearch.Wire.Message

/-!
# Binary index files

The documents that the messages of a binary index file state. Of a field that a message has once the
last one counts; what is not given is empty or zero.

## Main definitions

* `IndexFile.documentsOfFields` — the documents in the fields of an index
* `IndexFile.parseBinary` — the documents of a binary index file
-/

namespace SymbolSearch.IndexFile

open Wire

/-- The record that an occurrence message states. -/
def recordOfFields (fields : Fields) : Record :=
  { symbol := (fields.texts 2).getLast?.getD ""
    roles := (fields.numbers 3).getLast?.getD 0
    range := fields.numbers 1
    kind := none }

/-- The document that a document message states. -/
def documentOfFields (fields : Fields) : Document :=
  { path := (fields.texts 1).getLast?.getD ""
    records := (fields.messages 2).map recordOfFields }

/-- The documents in the fields of an index. -/
def documentsOfFields (fields : Fields) : List Document := (fields.messages 2).map documentOfFields

/-- The documents of a binary index file. -/
def parseBinary (bytes : List UInt8) : Except Fault (List Document) :=
  (Wire.parse bytes).map documentsOfFields

end SymbolSearch.IndexFile
