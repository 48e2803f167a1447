import SymbolSearch.IndexFile.Load
import SymbolSearch.Proofs.Files.Tree
import SymbolSearch.Proofs.IndexFile.Text

/-!
# Files that can be loaded

A file is an index in one of three ways. The bytes of any other file are malformed, and the fault is
the one that was met when they were read as a binary index. What is loaded from a path, or why
nothing is, depends on what the path leads to.

## Main definitions

* `IndexFile.IsJson` — the bytes of a JSON index
* `IndexFile.Holds` — the documents that the bytes of a file hold
* `IndexFile.IsMalformed` — bytes that are no index

## Main results

* `IndexFile.decode_eq_ok_iff`, `IndexFile.decode_eq_error_iff` — decoding bytes
* `IndexFile.load_eq_ok_iff`, `IndexFile.load_eq_error_iff` — loading from a path
-/

namespace SymbolSearch.IndexFile

open Files

variable {bytes : List UInt8} {documents : List Document} {t : Tree} {cwd : Location}
  {path : String}

/-- The bytes are the text of a JSON index with these documents. -/
def IsJson (bytes : List UInt8) (documents : List Document) : Prop :=
  ∃ text, bytes = Text.utf8 text ∧ parseJson? text = some documents

/-- The documents that the bytes of a file hold. A JSON index is not read as a binary one. -/
inductive Holds (bytes : List UInt8) : List Document → Prop where
  | empty (h : bytes = []) : Holds bytes []
  | json {documents : List Document} (h : IsJson bytes documents) : Holds bytes documents
  | binary {fields : Wire.Fields} (hne : bytes ≠ []) (hjson : ∀ documents, ¬ IsJson bytes documents)
      (h : Wire.parse bytes = .ok fields) : Holds bytes (documentsOfFields fields)

/-- The bytes are neither empty nor a JSON index nor a binary index. The cause is what goes wrong when
they are read as a binary one. -/
structure IsMalformed (bytes : List UInt8) (cause : Wire.Fault) : Prop where
  ne_nil : bytes ≠ []
  not_isJson : ∀ documents, ¬ IsJson bytes documents
  parse_eq : Wire.parse bytes = .error cause

/-! ### Decoding -/

theorem bind_parseJson?_eq_some_iff :
    (text? bytes).bind parseJson? = some documents ↔ IsJson bytes documents := by
  simp only [Option.bind_eq_some_iff, text?_eq_some_iff, IsJson]

theorem decode_of_isJson (h : IsJson bytes documents) : decode bytes = .ok documents := by
  obtain ⟨text, rfl, h⟩ := h
  exact decode_utf8 h

theorem decode_of_not_isJson (hne : bytes ≠ []) (hjson : ∀ documents, ¬ IsJson bytes documents) :
    decode bytes = (Wire.parse bytes).map documentsOfFields := by
  have hnone : (text? bytes).bind parseJson? = none := by
    rw [Option.eq_none_iff_forall_ne_some]
    exact fun documents h => hjson documents (bind_parseJson?_eq_some_iff.mp h)
  rw [decode, decodeForm, if_neg (by simpa using hne), hnone, parseBinary]
  cases Wire.parse bytes <;> rfl

theorem decode_cases (bytes : List UInt8) :
    (bytes = [] ∧ decode bytes = .ok []) ∨
    (∃ documents, IsJson bytes documents ∧ decode bytes = .ok documents) ∨
    (bytes ≠ [] ∧ (∀ documents, ¬ IsJson bytes documents) ∧
      decode bytes = (Wire.parse bytes).map documentsOfFields) := by
  -- The cases are in the order in which the forms are tried.
  by_cases hnil : bytes = []
  · subst hnil
    exact .inl ⟨rfl, rfl⟩
  · by_cases hjson : ∃ documents, IsJson bytes documents
    · obtain ⟨documents, h⟩ := hjson
      exact .inr (.inl ⟨documents, h, decode_of_isJson h⟩)
    · have hjson := not_exists.mp hjson
      exact .inr (.inr ⟨hnil, hjson, decode_of_not_isJson hnil hjson⟩)

theorem decode_eq_ok_iff : decode bytes = .ok documents ↔ Holds bytes documents := by
  constructor
  · intro h
    obtain ⟨hnil, heq⟩ | ⟨documents', hjson, heq⟩ | ⟨hne, hjson, heq⟩ := decode_cases bytes
    · obtain rfl := Except.ok.inj (heq.symm.trans h)
      exact .empty hnil
    · obtain rfl := Except.ok.inj (heq.symm.trans h)
      exact .json hjson
    · cases hparse : Wire.parse bytes with
      | error cause =>
        rw [heq, hparse] at h
        cases h
      | ok fields =>
        rw [heq, hparse] at h
        obtain rfl := Except.ok.inj h
        exact .binary hne hjson hparse
  · intro h
    cases h with
    | empty h =>
      subst h
      rfl
    | json h => exact decode_of_isJson h
    | binary hne hjson h =>
      rw [decode_of_not_isJson hne hjson, h]
      rfl

theorem decode_eq_error_iff {cause : Wire.Fault} :
    decode bytes = .error cause ↔ IsMalformed bytes cause := by
  constructor
  · intro h
    obtain ⟨-, heq⟩ | ⟨documents, -, heq⟩ | ⟨hne, hjson, heq⟩ := decode_cases bytes
    · cases heq.symm.trans h
    · cases heq.symm.trans h
    · refine ⟨hne, hjson, ?_⟩
      cases hparse : Wire.parse bytes with
      | error cause' =>
        rw [heq, hparse] at h
        exact congrArg Except.error (Except.error.inj h)
      | ok fields =>
        rw [heq, hparse] at h
        cases h
  · intro h
    rw [decode_of_not_isJson h.ne_nil h.not_isJson, h.parse_eq]
    rfl

/-! ### Loading -/

theorem readBytes_eq (t : Tree) (cwd : Location) (path : String) :
    readBytes t cwd path =
      match t.find? cwd path with
      | none => .error (.notFound path)
      | some .directory => .error (.unreadable path .isDirectory)
      | some (.file bytes) => .ok bytes := by
  rw [readBytes, Tree.contains]
  cases hfind : t.find? cwd path with
  | none => rfl
  | some node =>
    rw [Tree.read_of_find? hfind]
    cases node <;> rfl

theorem load_eq_ok_iff :
    load t cwd path = .ok documents ↔
      ∃ bytes, t.find? cwd path = some (.file bytes) ∧ Holds bytes documents := by
  simp only [← decode_eq_ok_iff, load, readBytes_eq, bind, Except.bind]
  cases t.find? cwd path with
  | none => simp
  | some node =>
    cases node with
    | directory => simp
    | file bytes =>
      simp only [Option.some.injEq, Node.file.injEq, exists_eq_left']
      cases decode bytes <;> simp

theorem load_eq_error_iff {fault : Fault} :
    load t cwd path = .error fault ↔
      (t.find? cwd path = none ∧ fault = .notFound path) ∨
      (t.find? cwd path = some .directory ∧ fault = .unreadable path .isDirectory) ∨
      ∃ bytes cause, t.find? cwd path = some (.file bytes) ∧ IsMalformed bytes cause ∧
        fault = .malformed cause := by
  simp only [← decode_eq_error_iff, load, readBytes_eq, bind, Except.bind]
  cases t.find? cwd path with
  | none => simp [eq_comm]
  | some node =>
    cases node with
    | directory => simp [eq_comm]
    | file bytes =>
      cases hdecode : decode bytes <;> simp [hdecode, eq_comm]

end SymbolSearch.IndexFile
