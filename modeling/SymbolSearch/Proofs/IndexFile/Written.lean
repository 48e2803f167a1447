import SymbolSearch.IndexFile.Binary
import SymbolSearch.Proofs.Wire.Reads

/-!
# Documents written as a binary index file

The canonical binary form of a list of documents, with or without metadata in front: fields in the
order of their numbers, fields with a default value left out, ranges packed. Reading it gives the
documents back.

## Main definitions

* `IndexFile.Metadata`, `IndexFile.ToolInfo` — what an index file says about its making
* `IndexFile.indexBytes` — the canonical form

## Main results

* `IndexFile.parseBinary_indexBytes` — the canonical form reads as its documents
-/

namespace SymbolSearch.IndexFile

open Wire

/-- What an index file says about the tool that wrote it. -/
structure ToolInfo where
  /-- The name of the tool. -/
  name : String
  /-- Its version. -/
  version : String
  /-- The arguments it was called with. -/
  arguments : List String

/-- What an index file says about its making. -/
structure Metadata where
  /-- The number of the version of the format. -/
  version : Int32
  /-- The tool, where it is given. -/
  toolInfo : Option ToolInfo
  /-- The root of the project. -/
  projectRoot : String
  /-- The number of the encoding of the source files. -/
  textEncoding : Int32

/-! ### Fields that are left out when they say nothing -/

/-- A number, left out when it is zero. -/
def numberField (field : Nat) (n : Int32) : List UInt8 :=
  if n = 0 then [] else tagBytes field 0 ++ numberBytes n

/-- A text, left out when it is empty. -/
def textField (field : Nat) (s : String) : List UInt8 :=
  if s = "" then [] else tagBytes field 2 ++ textBytes s

/-- Packed numbers, left out when there are none. -/
def packedField (field : Nat) (ns : List Int32) : List UInt8 :=
  if ns = [] then [] else tagBytes field 2 ++ lengthPrefixed (ns.flatMap numberBytes)

/-- A message with the given content. -/
def messageField (field : Nat) (content : List UInt8) : List UInt8 :=
  tagBytes field 2 ++ lengthPrefixed content

/-! ### Messages -/

/-- The content of the message of a tool. -/
def ToolInfo.bytes (tool : ToolInfo) : List UInt8 :=
  textField 1 tool.name ++ textField 2 tool.version ++
    tool.arguments.flatMap fun argument => tagBytes 3 2 ++ textBytes argument

/-- The content of the message of metadata. -/
def Metadata.bytes (m : Metadata) : List UInt8 :=
  numberField 1 m.version ++ (m.toolInfo.elim [] fun tool => messageField 2 tool.bytes) ++
    textField 3 m.projectRoot ++ numberField 4 m.textEncoding

/-- The content of the message of a record. -/
def recordBytes (r : Record) : List UInt8 :=
  packedField 1 r.range ++ textField 2 r.symbol ++ numberField 3 r.roles

/-- The content of the message of a document. -/
def documentBytes (d : Document) : List UInt8 :=
  textField 1 d.path ++ d.records.flatMap fun r => messageField 2 (recordBytes r)

/-- A whole index file. -/
def indexBytes (metadata : Option Metadata) (documents : List Document) : List UInt8 :=
  (metadata.elim [] fun m => messageField 1 m.bytes) ++
    documents.flatMap fun d => messageField 2 (documentBytes d)

/-! ### What the messages read as -/

variable {depth field : Nat} {type : MessageType}

theorem reads_numberField (hfield : type.field? field = some .number) (n : Int32) :
    Reads depth type (numberField field n) (if n = 0 then [] else [(field, .number n)]) :=
  .optional _ (.number hfield n)

theorem reads_textField (hfield : type.field? field = some .text) (s : String) :
    Reads depth type (textField field s) (if s = "" then [] else [(field, .text s)]) :=
  .optional _ (.text hfield s)

theorem reads_packedField (hfield : type.field? field = some .numbers)
    (ns : List Int32) :
    Reads depth type (packedField field ns) (ns.map fun n => (field, .number n)) := by
  have h : Reads depth type (packedField field ns)
      (if ns = [] then [] else ns.map fun n => (field, .number n)) :=
    .optional _ (.packed hfield ns)
  cases ns with
  | nil => exact h
  | cons n ns => exact h

/-- The fields of the message of a record. -/
def recordFields (r : Record) : Fields :=
  (r.range.map fun n => (1, Value.number n)) ++
    (if r.symbol = "" then [] else [(2, .text r.symbol)]) ++
    (if r.roles = 0 then [] else [(3, .number r.roles)])

/-- The fields of the message of a document. -/
def documentFields (d : Document) : Fields :=
  (if d.path = "" then [] else [(1, .text d.path)]) ++
    d.records.flatMap fun r => [(2, .message (recordFields r))]

theorem reads_recordBytes (r : Record) : Reads depth .occurrence (recordBytes r) (recordFields r) :=
  ((reads_packedField rfl r.range).append
    (reads_textField rfl r.symbol)).append (reads_numberField rfl r.roles)

theorem reads_documentBytes (d : Document) :
    Reads (depth + 1) .document (documentBytes d) (documentFields d) :=
  (reads_textField rfl d.path).append
    (.flatMap fun r _ => .message rfl (reads_recordBytes r))

theorem reads_toolInfoBytes (depth : Nat) (tool : ToolInfo) :
    ∃ fields, Reads depth .toolInfo tool.bytes fields :=
  ⟨_, ((reads_textField rfl tool.name).append
    (reads_textField rfl tool.version)).append
      (.flatMap fun argument _ => .text rfl argument)⟩

theorem reads_metadataBytes (depth : Nat) (m : Metadata) :
    ∃ fields, Reads (depth + 1) .metadata m.bytes fields := by
  have htool : ∃ fields, Reads (depth + 1) .metadata
      (m.toolInfo.elim [] fun tool => messageField 2 tool.bytes) fields := by
    cases m.toolInfo with
    | none => exact ⟨[], .nil⟩
    | some tool =>
      obtain ⟨fields, h⟩ := reads_toolInfoBytes depth tool
      exact ⟨_, .message rfl h⟩
  obtain ⟨fields, h⟩ := htool
  exact ⟨_, (((reads_numberField rfl m.version).append h).append
    (reads_textField rfl m.projectRoot)).append
      (reads_numberField rfl m.textEncoding)⟩

/-- The documents come behind the fields of the metadata, which holds no document. -/
theorem reads_indexBytes (depth : Nat) (metadata : Option Metadata) (documents : List Document) :
    ∃ fields : Fields, fields.messages 2 = [] ∧
      Reads (depth + 2) .index (indexBytes metadata documents)
        (fields ++ documents.flatMap fun d => [(2, .message (documentFields d))]) := by
  have hdocuments : Reads (depth + 2) .index
      (documents.flatMap fun d => messageField 2 (documentBytes d))
      (documents.flatMap fun d => [(2, .message (documentFields d))]) :=
    .flatMap fun d _ => .message rfl (reads_documentBytes d)
  cases metadata with
  | none => exact ⟨[], rfl, hdocuments⟩
  | some m =>
    obtain ⟨fields, h⟩ := reads_metadataBytes depth m
    exact ⟨[(1, .message fields)], rfl, .append (.message rfl h) hdocuments⟩

/-! ### What the fields state -/

theorem texts_append (a b : Fields) (number : Nat) :
    (a ++ b : Fields).texts number = a.texts number ++ b.texts number :=
  List.filterMap_append

theorem numbers_append (a b : Fields) (number : Nat) :
    (a ++ b : Fields).numbers number = a.numbers number ++ b.numbers number :=
  List.filterMap_append

theorem messages_append (a b : Fields) (number : Nat) :
    (a ++ b : Fields).messages number = a.messages number ++ b.messages number :=
  List.filterMap_append

theorem numbers_map_number (ns : List Int32) (field number : Nat) :
    Fields.numbers (ns.map fun n => (field, Value.number n)) number =
      if field = number then ns else [] := by
  unfold Fields.numbers
  rw [List.filterMap_map]
  split
  · next h => simp only [Function.comp_def, if_pos h, List.filterMap_some]
  · next h => exact List.filterMap_eq_nil_iff.mpr fun n _ => if_neg h

theorem texts_map_number (ns : List Int32) (field number : Nat) :
    Fields.texts (ns.map fun n => (field, Value.number n)) number = [] := by
  simp [Fields.texts]

theorem messages_flatMap_message {α : Type*} (xs : List α) (f : α → Fields) (number : Nat) :
    Fields.messages (xs.flatMap fun x => [(number, Value.message (f x))]) number = xs.map f := by
  induction xs with
  | nil => rfl
  | cons x xs ih =>
    rw [List.flatMap_cons, messages_append, ih]
    simp [Fields.messages]

theorem texts_flatMap_message {α : Type*} (xs : List α) (f : α → Fields) (field number : Nat) :
    Fields.texts (xs.flatMap fun x => [(field, Value.message (f x))]) number = [] := by
  induction xs with
  | nil => rfl
  | cons x xs ih => rw [List.flatMap_cons, texts_append, ih]; rfl

theorem recordOfFields_recordFields {r : Record} (h : r.kind = none) :
    recordOfFields (recordFields r) = r := by
  obtain ⟨symbol, roles, range, kind⟩ := r
  subst h
  simp only [recordOfFields, recordFields, texts_append, numbers_append, texts_map_number,
    numbers_map_number]
  congr 1
  · by_cases hs : symbol = "" <;> by_cases hr : roles = 0 <;> simp [hs, hr, Fields.texts]
  · by_cases hs : symbol = "" <;> by_cases hr : roles = 0 <;> simp [hs, hr, Fields.numbers]
  · by_cases hs : symbol = "" <;> by_cases hr : roles = 0 <;> simp [hs, hr, Fields.numbers]

theorem documentOfFields_documentFields {d : Document} (h : ∀ r ∈ d.records, r.kind = none) :
    documentOfFields (documentFields d) = d := by
  obtain ⟨path, records⟩ := d
  have hrecords : (records.map recordFields).map recordOfFields = records := by
    rw [List.map_map]
    exact (List.map_congr_left fun r hr => recordOfFields_recordFields (h r hr)).trans
      (List.map_id records)
  have hpath : Fields.messages (if path = "" then [] else [(1, .text path)]) 2 = [] := by
    split <;> rfl
  simp only [documentOfFields, documentFields, texts_append, messages_append,
    messages_flatMap_message, texts_flatMap_message, hpath, List.nil_append, List.append_nil,
    hrecords]
  congr 1
  by_cases hp : path = "" <;> simp [hp, Fields.texts]

/-- Reading the canonical form of documents without kinds gives the documents back. -/
theorem parseBinary_indexBytes {metadata : Option Metadata} {documents : List Document}
    (hkind : ∀ d ∈ documents, ∀ r ∈ d.records, r.kind = none)
    (hsize : (indexBytes metadata documents).length < 2 ^ 32) :
    parseBinary (indexBytes metadata documents) = .ok documents := by
  obtain ⟨fields, hnone, hreads⟩ := reads_indexBytes 98 metadata documents
  rw [parseBinary, hreads.parse_eq hsize]
  change Except.ok (documentsOfFields _) = _
  rw [documentsOfFields, messages_append, hnone, messages_flatMap_message, List.nil_append,
    List.map_map]
  exact congrArg _ ((List.map_congr_left fun d hd =>
    documentOfFields_documentFields (hkind d hd)).trans (List.map_id documents))

end SymbolSearch.IndexFile
