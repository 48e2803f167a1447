import SymbolSearch.IndexFile.Binary
import SymbolSearch.IndexFile.Json

/-!
# Index files

An index file is empty, a JSON index or a binary index. What looks like JSON and is no JSON index is
read as a binary one.

## Main definitions

* `IndexFile.Form` — what a file turned out to be
* `IndexFile.decode` — the documents of a file
-/

namespace SymbolSearch.IndexFile

/-- The form in which the documents of a file were found. -/
inductive Form where
  | empty
  | json
  | binary
  deriving DecidableEq, Repr

/-- The text of a file, if it is encoded as UTF-8. -/
def text? (bytes : List UInt8) : Option (List Char) :=
  (String.fromUTF8? bytes.toByteArray).map String.toList

/-- Whether a file looks like a JSON index. -/
def looksLikeJsonFile (bytes : List UInt8) : Bool := (text? bytes).any looksLikeJson

/-- The form of a file and its documents. -/
def decodeForm (bytes : List UInt8) : Except Wire.Fault (Form × List Document) :=
  if bytes.isEmpty then .ok (.empty, [])
  else
    match (text? bytes).bind parseJson? with
    | some documents => .ok (.json, documents)
    | none => (parseBinary bytes).map fun documents => (.binary, documents)

/-- The documents of a file. -/
def decode (bytes : List UInt8) : Except Wire.Fault (List Document) :=
  (decodeForm bytes).map Prod.snd

end SymbolSearch.IndexFile
