import SymbolSearch.Occurrence.Json
import SymbolSearch.Proofs.Json.Pretty
import SymbolSearch.Proofs.Json.Source

/-!
# Occurrences and hits survive JSON

An occurrence that was written as JSON is read back, whatever its texts and numbers are, and so is
the list of its fields. Older texts have no kind: without it an occurrence is read as one of unknown
kind, from an object and from a list. A hit may leave its kind out in an object only, since in a list
another field follows.

## Main definitions

* `Occurrence.members`, `Query.Hit.members` — the fields with their names
* `Json.IsReadAs` — what all texts that are written for a value are read as

## Main results

* `Occurrence.ofSource?_of_slots`, `Query.Hit.ofSource?_of_slots` — reading by the values of the
  fields
* `Query.Hit.isReadAs_written` — occurrences and hits are read back
-/

namespace SymbolSearch

open Source

/-! ### Fields -/

theorem required_text (s : String) : required text? (some (Json.text s)) = some s := rfl

theorem required_bool (b : Bool) : required bool? (some (Json.bool b)) = some b := rfl

theorem required_uint32 (n : UInt32) :
    required uint32? (some (Json.int n.toNat)) = some n := by
  have hrange : 0 ≤ (n.toNat : Int) ∧ (n.toNat : Int) < 0x100000000 := by
    have := n.toNat_lt
    omega
  have hint : int? (Json.int n.toNat) = some (n.toNat : Int) := rfl
  rw [required, Option.bind_some, uint32?, hint, Option.bind_eq_bind, Option.bind_some,
    if_pos hrange, Int.toNat_natCast, UInt32.ofNat_toNat]

theorem SymbolKind.ofSource?_toJson (k : SymbolKind) : ofSource? k.toJson = some k :=
  ofExactName?_name k

/-- A kind is read back, and an unknown one from the null that stands for it. -/
theorem SymbolKind.optional_optionToJson (kind : Option SymbolKind) :
    optional ofSource? (some (optionToJson kind)) = some kind := by
  cases kind with
  | none => rfl
  | some k => exact optional_of_eq_some rfl k.ofSource?_toJson

/-- A kind that is left out is unknown. -/
theorem SymbolKind.optional_none :
    optional ofSource? (none : Option Json) = some (none : Option SymbolKind) := rfl

/-- The members of an object other than the kind. -/
def withoutKind (members : List (String × Json)) : List (String × Json) :=
  members.filter fun member => member.1 != "kind"

theorem slots?_withoutKind {members : List (String × Json)} {names : List String}
    (hkeys : members.map Prod.fst = names) (hnames : names.Nodup) :
    slots? names (Json.record (withoutKind members)) =
      some (names.map fun name => if name != "kind" then members.lookup name else none) := by
  rw [Json.slots?_record]
  exact tableSlots?_filter hkeys hnames fun name => name != "kind"

namespace Occurrence

variable (o : Occurrence)

/-- The fields with their names. -/
def members : List (String × Json) := fieldNames.zip o.fieldValues

/-- The fields before the kind. -/
theorem dropLast_fieldValues :
    o.fieldValues.dropLast = [Json.text o.symbol, Json.text o.file, .int o.line.toNat,
      .int o.column.toNat, .int o.endLine.toNat, .int o.endColumn.toNat,
      .int o.roles.mask.toNat] := rfl

/-- An occurrence is read from the values of its fields, with the kind that the last one gives. -/
theorem ofSource?_of_slots {v : Json} {kindSlot : Option Json}
    (hslots : slots? fieldNames v = some (o.fieldValues.dropLast.map some ++ [kindSlot])) :
    ofSource? v =
      (optional SymbolKind.ofSource? kindSlot).map fun kind => { o with kind := kind } := by
  rw [dropLast_fieldValues] at hslots
  simp only [List.map_cons, List.map_nil, List.cons_append, List.nil_append] at hslots
  -- With steps by definition the kernel would compute with the bound of 32 bits.
  simp -implicitDefEqProofs only [ofSource?, hslots, Option.bind_eq_bind, Option.bind_some,
    required_text, required_uint32, Option.pure_def, Option.map_eq_bind, Function.comp_def]

theorem ofSource?_toJson : ofSource? o.toJson = some o := by
  have hslots : slots? fieldNames o.toJson =
      some (o.fieldValues.dropLast.map some ++ [some (SymbolKind.optionToJson o.kind)]) := by
    rw [toJson, Json.slots?_record]
    rfl
  rw [o.ofSource?_of_slots hslots, SymbolKind.optional_optionToJson, Option.map_some]

theorem ofSource?_arr : ofSource? (Json.arr (o.members.map Prod.snd)) = some o := by
  have hlength : (o.members.map Prod.snd).length ≤ fieldNames.length := Nat.le_refl 8
  have hslots : slots? fieldNames (Json.arr (o.members.map Prod.snd)) =
      some (o.fieldValues.dropLast.map some ++ [some (SymbolKind.optionToJson o.kind)]) := by
    rw [Json.slots?_arr hlength]
    rfl
  rw [o.ofSource?_of_slots hslots, SymbolKind.optional_optionToJson, Option.map_some]

theorem ofSource?_withoutKind :
    ofSource? (Json.record (withoutKind o.members)) = some { o with kind := none } := by
  have hkeys : o.members.map Prod.fst = fieldNames := rfl
  have hslots : slots? fieldNames (Json.record (withoutKind o.members)) =
      some (o.fieldValues.dropLast.map some ++ [none]) := by
    rw [slots?_withoutKind hkeys (by decide)]
    rfl
  rw [o.ofSource?_of_slots hslots, SymbolKind.optional_none, Option.map_some]

theorem ofSource?_arr_withoutKind :
    ofSource? (Json.arr ((withoutKind o.members).map Prod.snd)) = some { o with kind := none } := by
  have hlength : ((withoutKind o.members).map Prod.snd).length ≤ fieldNames.length := Nat.le_succ 7
  have hslots : slots? fieldNames (Json.arr ((withoutKind o.members).map Prod.snd)) =
      some (o.fieldValues.dropLast.map some ++ [none]) := by
    rw [Json.slots?_arr hlength]
    rfl
  rw [o.ofSource?_of_slots hslots, SymbolKind.optional_none, Option.map_some]

end Occurrence

namespace Query.Hit

variable (hit : Hit)

/-- The fields with their names. -/
def members : List (String × Json) :=
  fieldNames.zip (hit.occurrence.fieldValues ++ [.bool hit.isDefinition])

/-- A hit is read from the values of its fields, with what the last two say. -/
theorem ofSource?_of_slots {v : Json} {kindSlot definitionSlot : Option Json}
    (hslots : slots? fieldNames v =
      some (hit.occurrence.fieldValues.dropLast.map some ++ [kindSlot, definitionSlot])) :
    ofSource? v =
      (optional SymbolKind.ofSource? kindSlot).bind fun kind =>
        (required bool? definitionSlot).map fun isDefinition =>
          ⟨{ hit.occurrence with kind := kind }, isDefinition⟩ := by
  rw [Occurrence.dropLast_fieldValues] at hslots
  simp only [List.map_cons, List.map_nil, List.cons_append, List.nil_append] at hslots
  simp -implicitDefEqProofs only [ofSource?, hslots, Option.bind_eq_bind, Option.bind_some,
    required_text, required_uint32, Option.pure_def, Option.map_eq_bind, Function.comp_def]

theorem ofSource?_toJson : ofSource? hit.toJson = some hit := by
  have hslots : slots? fieldNames hit.toJson =
      some (hit.occurrence.fieldValues.dropLast.map some ++
        [some (SymbolKind.optionToJson hit.occurrence.kind), some (.bool hit.isDefinition)]) := by
    rw [toJson, Json.slots?_record]
    rfl
  rw [hit.ofSource?_of_slots hslots, SymbolKind.optional_optionToJson, required_bool]
  rfl

theorem ofSource?_arr : ofSource? (Json.arr (hit.members.map Prod.snd)) = some hit := by
  have hlength : (hit.members.map Prod.snd).length ≤ fieldNames.length := Nat.le_refl 9
  have hslots : slots? fieldNames (Json.arr (hit.members.map Prod.snd)) =
      some (hit.occurrence.fieldValues.dropLast.map some ++
        [some (SymbolKind.optionToJson hit.occurrence.kind), some (.bool hit.isDefinition)]) := by
    rw [Json.slots?_arr hlength]
    rfl
  rw [hit.ofSource?_of_slots hslots, SymbolKind.optional_optionToJson, required_bool]
  rfl

theorem ofSource?_withoutKind :
    ofSource? (Json.record (withoutKind hit.members)) =
      some { hit with occurrence := { hit.occurrence with kind := none } } := by
  have hkeys : hit.members.map Prod.fst = fieldNames := rfl
  have hslots : slots? fieldNames (Json.record (withoutKind hit.members)) =
      some (hit.occurrence.fieldValues.dropLast.map some ++
        [none, some (.bool hit.isDefinition)]) := by
    rw [slots?_withoutKind hkeys (by decide)]
    rfl
  rw [hit.ofSource?_of_slots hslots, SymbolKind.optional_none, required_bool]
  rfl

/-- In a list without the kind the next field takes its place, which is no kind. -/
theorem ofSource?_arr_withoutKind :
    ofSource? (Json.arr ((withoutKind hit.members).map Prod.snd)) = none := by
  have hlength : ((withoutKind hit.members).map Prod.snd).length ≤ fieldNames.length :=
    Nat.le_succ 8
  have hslots : slots? fieldNames (Json.arr ((withoutKind hit.members).map Prod.snd)) =
      some (hit.occurrence.fieldValues.dropLast.map some ++
        [some (.bool hit.isDefinition), none]) := by
    rw [Json.slots?_arr hlength]
    rfl
  rw [hit.ofSource?_of_slots hslots]
  rfl

end Query.Hit

/-! ### Texts -/

/-- What every text that is written for a value, on one line or over several, is read as. -/
def Json.IsReadAs {β : Type} (read : Json → Option β) (v : Json) (result : Option β) : Prop :=
  ∀ text, text = v.compact ∨ text = v.pretty → (Json.parse? text).bind read = result

theorem Json.isReadAs_of_eq {β : Type} {read : Json → Option β} {v : Json} {result : Option β}
    (h : read v = result) : Json.IsReadAs read v result := by
  rintro text (rfl | rfl)
  · rw [Json.parse?_compact, Option.bind_some, h]
  · rw [Json.parse?_pretty, Option.bind_some, h]

/-- An occurrence is read back from the text of its object and of the list of its fields, and with
an unknown kind from both without the kind. A hit is read back likewise, but a list without the kind
is refused. -/
theorem Query.Hit.isReadAs_written (o : Occurrence) (hit : Query.Hit) :
    (Json.IsReadAs Occurrence.ofSource? o.toJson (some o) ∧
      Json.IsReadAs Occurrence.ofSource? (.arr (o.members.map Prod.snd)) (some o) ∧
      Json.IsReadAs Occurrence.ofSource? (.record (withoutKind o.members))
        (some { o with kind := none }) ∧
      Json.IsReadAs Occurrence.ofSource? (.arr ((withoutKind o.members).map Prod.snd))
        (some { o with kind := none })) ∧
    (Json.IsReadAs ofSource? hit.toJson (some hit) ∧
      Json.IsReadAs ofSource? (.arr (hit.members.map Prod.snd)) (some hit) ∧
      Json.IsReadAs ofSource? (.record (withoutKind hit.members))
        (some { hit with occurrence := { hit.occurrence with kind := none } }) ∧
      Json.IsReadAs ofSource? (.arr ((withoutKind hit.members).map Prod.snd)) none) := by
  refine ⟨⟨?_, ?_, ?_, ?_⟩, ?_, ?_, ?_, ?_⟩
  · exact Json.isReadAs_of_eq o.ofSource?_toJson
  · exact Json.isReadAs_of_eq o.ofSource?_arr
  · exact Json.isReadAs_of_eq o.ofSource?_withoutKind
  · exact Json.isReadAs_of_eq o.ofSource?_arr_withoutKind
  · exact Json.isReadAs_of_eq hit.ofSource?_toJson
  · exact Json.isReadAs_of_eq hit.ofSource?_arr
  · exact Json.isReadAs_of_eq hit.ofSource?_withoutKind
  · exact Json.isReadAs_of_eq hit.ofSource?_arr_withoutKind

end SymbolSearch
