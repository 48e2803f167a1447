import SymbolSearch.Proofs.IndexFile.Text
import SymbolSearch.Proofs.Json.Source
import SymbolSearch.Proofs.Json.Spelling

/-!
# Documents written as a JSON index file

Documents can be written as JSON in two styles: with relative paths and ranges as lists of numbers,
or with URIs and ranges as two places. The name of a kind may be written in any letter case, and
blanks may stand around the whole. Either way the file is decoded to the documents.

## Main definitions

* `IndexFile.Style` — the two styles
* `IndexFile.Style.IsIndex` — a value states documents in a style

## Main results

* `IndexFile.range?_rangeValue`, `IndexFile.record?_recordValue`,
  `IndexFile.document?_documentValue` — reading back what was written, part by part
* `IndexFile.decode_rendered` — a JSON index file is decoded to its documents
-/

namespace SymbolSearch

/-! ### Names of kinds -/

/-- A text is a name with some of its letters in capitals. -/
def Recased (name text : String) : Prop :=
  List.Forall₂ (fun c d => d = c ∨ d = c.toUpper) name.toList text.toList

theorem SymbolKind.toLower_of_mem_name (k : SymbolKind) :
    ∀ c ∈ k.name.toList, c.toLower = c ∧ c.toUpper.toLower = c := by
  have hletters : k.name.toList.all (fun c => c.toLower == c && c.toUpper.toLower == c) = true := by
    cases k <;> decide
  intro c hc
  simpa using List.all_eq_true.mp hletters c hc

theorem map_toLower_of_forall₂ {name text : List Char}
    (hname : ∀ c ∈ name, c.toLower = c ∧ c.toUpper.toLower = c)
    (h : List.Forall₂ (fun c d => d = c ∨ d = c.toUpper) name text) :
    text.map Char.toLower = name := by
  induction h with
  | nil => rfl
  | @cons c d name text hcd _ ih =>
    obtain ⟨hlower, hupper⟩ := hname c List.mem_cons_self
    have hd : d.toLower = c := by
      rcases hcd with rfl | rfl
      · exact hlower
      · exact hupper
    rw [List.map_cons, hd, ih fun c hc => hname c (List.mem_cons_of_mem _ hc)]

theorem SymbolKind.ofName?_of_recased {k : SymbolKind} {text : String}
    (h : Recased k.name text) : ofName? text = some k := by
  rw [ofName?, map_toLower_of_forall₂ k.toLower_of_mem_name h, String.ofList_toList,
    ofExactName?_name]

namespace IndexFile

open Source

/-! ### The two styles -/

/-- A style of writing documents as JSON. -/
inductive Style where
  /-- Relative paths, and ranges as lists of numbers. -/
  | listed
  /-- URIs, and ranges as two places. -/
  | placed

/-- The place of a line and a character. -/
def placeValue (line character : Int32) : Json :=
  .record [("line", .ofInt32 line), ("character", .ofInt32 character)]

namespace Style

/-- The range of a record; as two places it has to have four numbers. -/
def rangeValue : Style → List Int32 → Json
  | listed, range => .arr (range.map .ofInt32)
  | placed, range =>
    .record [("start", placeValue (range.getD 0 0) (range.getD 1 0)),
      ("end", placeValue (range.getD 2 0) (range.getD 3 0))]

/-- The mask of the roles of a record, under its key. -/
def rolesMember : Style → Int32 → String × Json
  | listed, roles => ("symbolRoles", .ofInt32 roles)
  | placed, roles => ("role", .ofInt32 roles)

/-- The path of a document, under its key. -/
def pathMember : Style → String → String × Json
  | listed, path => ("relativePath", .text path)
  | placed, path => ("uri", .text ("file:///" ++ path))

/-- A record, with the name of its kind if it has one. -/
def recordValue (style : Style) (r : Record) (kind : Option String) : Json :=
  .record ([("symbol", .text r.symbol), style.rolesMember r.roles,
    ("range", style.rangeValue r.range)] ++ kind.toList.map fun name => ("kind", .text name))

/-- A document with the values of its records. -/
def documentValue (style : Style) (path : String) (records : List Json) : Json :=
  .record [style.pathMember path, ("occurrences", .arr records)]

/-- A value states a record, with the name of its kind in any letter case. -/
def IsRecord (style : Style) (r : Record) (v : Json) : Prop :=
  ∃ kind, Option.Rel (fun k name => Recased k.name name) r.kind kind ∧ v = style.recordValue r kind

/-- A value states a document. -/
def IsDocument (style : Style) (d : Document) (v : Json) : Prop :=
  ∃ records, List.Forall₂ style.IsRecord d.records records ∧ v = style.documentValue d.path records

/-- A value states the documents of an index. -/
def IsIndex (style : Style) (documents : List Document) (v : Json) : Prop :=
  ∃ values, List.Forall₂ style.IsDocument documents values ∧
    v = .record [("documents", .arr values)]

/-- Whether a range can be written in a style. -/
def Holds : Style → List Int32 → Prop
  | listed, _ => True
  | placed, range => range.length = 4

end Style

/-! ### Ranges -/

/-- An integer that fits 64 bits keeps all its digits, so no power of ten is computed. -/
theorem isFiniteScaled_of_lt {n : Nat} (negative : Bool) (h : n < 0x10000000000000000) :
    (Decimal.mk negative n 0).isFiniteScaled = true := by
  have hdigits : (Nat.toDigits 10 n).length ≤ 20 :=
    (Nat.length_toDigits_le_iff (by decide) (by decide)).mpr (by omega)
  have hdropped : (Nat.toDigits 10 n).length - 20 = 0 := by omega
  have hleading : (Decimal.mk negative n 0).leading = ⟨negative, n, 0⟩ := by
    have hone : Nat.pow 10 0 = 1 := rfl
    simp only [Decimal.leading, hdropped, hone, Nat.div_one, if_pos h]
    rfl
  simp [Decimal.isFiniteScaled, hleading]

theorem isWhole_ofInt32 (depth : Nat) (n : Int32) : (Json.ofInt32 n).isWhole depth = true := by
  have hsmall : n.toInt.natAbs < 0x10000000000000000 := by
    have := n.le_toInt
    have := n.toInt_lt
    omega
  rw [Json.ofInt32, Json.isWhole]
  exact isFiniteScaled_of_lt _ hsmall

theorem range?_listed (range : List Int32) :
    range? (Style.listed.rangeValue range) = some range := by
  have hwhole : (Style.listed.rangeValue range).isWhole rangeDepth = true := by
    change (range.map _).all (Json.isWhole 121) = true
    rw [List.all_map, List.all_eq_true]
    exact fun n _ => isWhole_ofInt32 121 n
  have hlist : list? int32? (Style.listed.rangeValue range) = some range := by
    refine list?_of_forall₂ rfl ?_
    rw [List.forall₂_map_right_iff, List.forall₂_same]
    exact fun n _ => Json.int32?_ofInt32 n
  rw [range?, if_pos hwhole, hlist]

theorem place?_placeValue (line character : Int32) :
    place? (placeValue line character) = some ⟨line, character⟩ := by
  have hslots : slots? ["line", "character"] (placeValue line character) =
      some [(some line).map .ofInt32, (some character).map .ofInt32] := by
    rw [placeValue, Json.slots?_record]
    rfl
  simp only [place?, hslots, Option.bind_eq_bind, Option.bind_some, Json.optional_ofInt32]
  rfl

theorem optional_place? (line character : Int32) :
    optional place? (some (placeValue line character)) = some (some ⟨line, character⟩) :=
  optional_of_eq_some rfl (place?_placeValue line character)

theorem isWhole_placeValue (depth : Nat) (line character : Int32) :
    (placeValue line character).isWhole (depth + 1) = true := by
  simp [placeValue, Json.record, Json.isWhole, isWhole_ofInt32]

theorem placedRange?_places (line character endLine endCharacter : Int32) :
    placedRange? (.record [("start", placeValue line character),
      ("end", placeValue endLine endCharacter)]) =
        some [line, character, endLine, endCharacter] := by
  have hslots : tableSlots? ["start", "end"] [("start", placeValue line character),
      ("end", placeValue endLine endCharacter)] =
        some [some (placeValue line character), some (placeValue endLine endCharacter)] := rfl
  simp only [placedRange?, Json.members?_record, hslots, optional_place?, Option.bind_eq_bind,
    Option.bind_some]
  rfl

theorem range?_placed {range : List Int32} (h : range.length = 4) :
    range? (Style.placed.rangeValue range) = some range := by
  obtain ⟨line, character, endLine, endCharacter, rfl⟩ := List.length_eq_four.mp h
  have hwhole : (Style.placed.rangeValue [line, character, endLine, endCharacter]).isWhole
      rangeDepth = true := by
    simp [Style.rangeValue, Json.record, Json.isWhole, rangeDepth, isWhole_placeValue]
  -- An object is no list, so it is read by its two places.
  rw [range?, if_pos hwhole]
  exact placedRange?_places line character endLine endCharacter

/-! ### Records and documents -/

/-- A record by the values of its members: the mask under `role` comes before the other one. -/
theorem record?_of_slots (symbolRoles role : Option Int32) {v range : Json} {symbol : String}
    {numbers : List Int32} {kind : Option String}
    (hslots : slots? ["symbol", "symbolRoles", "role", "range", "kind"] v =
      some [(some symbol).map .text, symbolRoles.map .ofInt32, role.map .ofInt32, some range,
        kind.map .text])
    (hnull : isNull range = false) (hrange : range? range = some numbers) :
    record? v = some ⟨symbol, (role.or symbolRoles).getD 0, numbers,
      kind.bind SymbolKind.ofName?⟩ := by
  simp only [record?, hslots, Option.bind_eq_bind, Option.bind_some, Json.optional_text,
    Json.optional_ofInt32, optional_of_eq_some hnull hrange]
  rfl

theorem range?_rangeValue {style : Style} {range : List Int32} (h : style.Holds range) :
    range? (style.rangeValue range) = some range := by
  cases style with
  | listed => exact range?_listed range
  | placed => exact range?_placed h

theorem record?_recordValue {style : Style} {r : Record} {kind : Option String}
    (hrange : style.Holds r.range) (hkind : kind.bind SymbolKind.ofName? = r.kind) :
    record? (style.recordValue r kind) = some r := by
  have hread := range?_rangeValue hrange
  obtain ⟨symbol, roles, range, _⟩ := r
  subst hkind
  rw [Style.recordValue]
  -- The styles differ in which of the two masks is given; the kind is the last member, if any.
  cases style with
  | listed =>
    refine record?_of_slots (some roles) none ?_ rfl hread
    rw [Json.slots?_record]
    cases kind <;> rfl
  | placed =>
    refine record?_of_slots none (some roles) ?_ rfl hread
    rw [Json.slots?_record]
    cases kind <;> rfl

theorem removeFirst_append {part : List Char} (hne : part ≠ []) (s : List Char) :
    removeFirst part (part ++ s) = s := by
  obtain ⟨c, rest, rfl⟩ := List.exists_cons_of_ne_nil hne
  -- The part is found at once, so nothing of the text behind it is searched.
  have hfound : (c :: rest).isPrefixOf (c :: (rest ++ s)) = true :=
    List.isPrefixOf_iff_prefix.mpr (List.prefix_append (c :: rest) s)
  rw [List.cons_append, removeFirst, if_pos hfound]
  exact List.drop_left

theorem documentPath_relative (path : String) : documentPath (some path) none = path := by
  rw [documentPath, Option.getD_some]
  -- An empty path is looked for in the URI, which is not there and gives an empty path too.
  split
  · next h => rw [String.isEmpty_iff.mp h]; rfl
  · rfl

theorem documentPath_uri (path : String) :
    documentPath none (some ("file:///" ++ path)) = path := by
  change String.ofList (removeFirst fileScheme ("file:///" ++ path).toList) = path
  rw [String.toList_append]
  change String.ofList (removeFirst fileScheme (fileScheme ++ path.toList)) = path
  rw [removeFirst_append (by decide), String.ofList_toList]

/-- A document by the values of its members. -/
theorem document?_of_slots (relativePath uri : Option String) {v : Json} {values : List Json}
    {records : List Record}
    (hslots : slots? ["relativePath", "uri", "occurrences"] v =
      some [relativePath.map .text, uri.map .text, some (.arr values)])
    (hrecords : list? record? (Json.arr values) = some records) :
    document? v = some ⟨documentPath relativePath uri, records⟩ := by
  simp only [document?, hslots, Option.bind_eq_bind, Option.bind_some, Json.optional_text,
    orDefault, hrecords]
  rfl

theorem document?_documentValue {style : Style} {d : Document} {values : List Json}
    (h : list? record? (Json.arr values) = some d.records) :
    document? (style.documentValue d.path values) = some d := by
  obtain ⟨path, records⟩ := d
  rw [Style.documentValue]
  cases style with
  | listed =>
    rw [document?_of_slots (some path) none ?_ h, documentPath_relative]
    rw [Json.slots?_record]
    rfl
  | placed =>
    rw [document?_of_slots none (some ("file:///" ++ path)) ?_ h, documentPath_uri]
    rw [Json.slots?_record]
    rfl

/-! ### Whole files -/

variable {style : Style} {documents : List Document} {v : Json}

theorem Style.IsRecord.record?_eq {r : Record} (h : style.IsRecord r v)
    (hrange : style.Holds r.range) : record? v = some r := by
  obtain ⟨kind, hkind, rfl⟩ := h
  refine record?_recordValue hrange ?_
  -- A record has a name for its kind exactly if it has a kind.
  generalize r.kind = k at hkind ⊢
  cases hkind with
  | none => rfl
  | some hname => exact SymbolKind.ofName?_of_recased hname

theorem Style.IsDocument.document?_eq {d : Document} (h : style.IsDocument d v)
    (hrange : ∀ r ∈ d.records, style.Holds r.range) : document? v = some d := by
  obtain ⟨values, hvalues, rfl⟩ := h
  have hread := (List.forall₂_and_left _ _).mpr ⟨hrange, hvalues⟩
  refine document?_documentValue (list?_of_forall₂ rfl ?_)
  exact hread.imp fun r v h => h.2.record?_eq h.1

theorem Style.IsIndex.documents?_eq (h : style.IsIndex documents v)
    (hrange : ∀ d ∈ documents, ∀ r ∈ d.records, style.Holds r.range) :
    documents? v = some documents := by
  obtain ⟨values, hvalues, rfl⟩ := h
  have hread := (List.forall₂_and_left _ _).mpr ⟨hrange, hvalues⟩
  have hlist : list? document? (Json.arr values) = some documents :=
    list?_of_forall₂ rfl (hread.imp fun d v h => h.2.document?_eq h.1)
  have hslots : slots? ["documents"] (Json.record [("documents", .arr values)]) =
      some [some (.arr values)] := by
    rw [Json.slots?_record]
    rfl
  simp only [documents?, hslots, Option.bind_eq_bind, Option.bind_some,
    optional_of_eq_some rfl hlist]
  rfl

/-- An object on one line, with blanks around it, is read as a JSON index if the object is one. -/
theorem parseJson?_padded {left right : List Char} {members : List (Literal × Json)}
    (hleft : ∀ c ∈ left, Text.isBlank c = true) (hright : ∀ c ∈ right, Text.isBlank c = true)
    (h : documents? (.obj members) = some documents) :
    parseJson? (left ++ (Json.compact (.obj members) ++ right)) = some documents := by
  have hlast : (Json.compact (.obj members)).getLast? = some '\x7d' := List.getLast?_concat
  have htrim : Text.trim (left ++ (Json.compact (.obj members) ++ right)) =
      Json.compact (.obj members) := by
    refine Text.trim_append hleft hright (List.cons_ne_nil _ _) ?_ ?_
    · rintro c ⟨⟩
      decide
    · rintro c hc
      rw [hlast] at hc
      cases hc
      decide
  have hlooks : looksLikeJson (left ++ (Json.compact (.obj members) ++ right)) = true := by
    rw [looksLikeJson, htrim]
    rfl
  rw [parseJson?, if_pos hlooks, htrim, Json.parse?_compact]
  exact h

theorem Style.IsIndex.decode_eq {left right : List Char}
    (hleft : ∀ c ∈ left, Text.isBlank c = true) (hright : ∀ c ∈ right, Text.isBlank c = true)
    (h : style.IsIndex documents v)
    (hrange : ∀ d ∈ documents, ∀ r ∈ d.records, style.Holds r.range) :
    decode (Text.utf8 (left ++ (Json.compact v ++ right))) = .ok documents := by
  have hread := h.documents?_eq hrange
  obtain ⟨values, -, rfl⟩ := h
  exact decode_utf8 (parseJson?_padded hleft hright hread)

/-- A JSON index file with blanks around it is decoded to the documents it states: with relative
paths and ranges as lists of numbers, and, if all ranges have four numbers, with URIs and ranges as
two places. -/
theorem decode_rendered (documents : List Document) {left right : List Char}
    (hleft : ∀ c ∈ left, Text.isBlank c = true) (hright : ∀ c ∈ right, Text.isBlank c = true) :
    (∀ v, Style.listed.IsIndex documents v →
      decode (Text.utf8 (left ++ (Json.compact v ++ right))) = .ok documents) ∧
    ((∀ d ∈ documents, ∀ r ∈ d.records, r.range.length = 4) →
      ∀ v, Style.placed.IsIndex documents v →
        decode (Text.utf8 (left ++ (Json.compact v ++ right))) = .ok documents) := by
  constructor
  · intro v hv
    exact hv.decode_eq hleft hright fun _ _ _ _ => trivial
  · intro hfour v hv
    exact hv.decode_eq hleft hright hfour

/-- A record with negative numbers and a kind. -/
def kindRecord : Record := ⟨"a\n#", -1, [0, -5, 0, 300], some .type⟩

/-- An index of one document with one record, the name of its kind in mixed letters. -/
def kindIndex (style : Style) : Json :=
  .record [("documents", .arr [style.documentValue "a.ts" [style.recordValue kindRecord "TyPe"]])]

example : Json.compact (kindIndex .listed) =
    ("\x7b\"documents\":[\x7b\"relativePath\":\"a.ts\",\"occurrences\":[" ++
      "\x7b\"symbol\":\"a\\n#\",\"symbolRoles\":-1,\"range\":[0,-5,0,300],\"kind\":\"TyPe\"\x7d" ++
      "]\x7d]\x7d").toList := by
  decide +kernel

theorem isIndex_kindIndex (style : Style) :
    style.IsIndex [⟨"a.ts", [kindRecord]⟩] (kindIndex style) := by
  have hname : Recased SymbolKind.type.name "TyPe" :=
    .cons (.inr rfl) (.cons (.inl rfl) (.cons (.inr rfl) (.cons (.inl rfl) .nil)))
  have hrecord : style.IsRecord kindRecord (style.recordValue kindRecord "TyPe") :=
    ⟨some "TyPe", .some hname, rfl⟩
  exact ⟨_, .cons ⟨_, .cons hrecord .nil, rfl⟩ .nil, rfl⟩

/-- Both styles at once, between an ideographic space, a line break and a no-break space. -/
theorem decode_rendered_kindIndex :
    (∀ c ∈ ['\u3000', '\n'], Text.isBlank c = true) ∧ (∀ c ∈ ['\u00a0'], Text.isBlank c = true) ∧
      decode (Text.utf8 (['\u3000', '\n'] ++ (Json.compact (kindIndex .listed) ++ ['\u00a0']))) =
        .ok [⟨"a.ts", [kindRecord]⟩] ∧
      decode (Text.utf8 (['\u3000', '\n'] ++ (Json.compact (kindIndex .placed) ++ ['\u00a0']))) =
        .ok [⟨"a.ts", [kindRecord]⟩] := by
  have hleft : ∀ c ∈ ['\u3000', '\n'], Text.isBlank c = true := List.all_eq_true.mp (by decide)
  have hright : ∀ c ∈ ['\u00a0'], Text.isBlank c = true := List.all_eq_true.mp (by decide)
  have hfour : ∀ d ∈ [Document.mk "a.ts" [kindRecord]], ∀ r ∈ d.records, r.range.length = 4 := by
    decide
  obtain ⟨hlisted, hplaced⟩ := decode_rendered [⟨"a.ts", [kindRecord]⟩] hleft hright
  exact ⟨hleft, hright, hlisted _ (isIndex_kindIndex .listed),
    hplaced hfour _ (isIndex_kindIndex .placed)⟩

end IndexFile

end SymbolSearch
