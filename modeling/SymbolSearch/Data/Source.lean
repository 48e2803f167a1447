/-!
# Reading records from data formats

Records are read in the same way from every format that describes its own values. A record is given
as a table of named members or as a list of its fields in order; unknown members are overlooked and
known ones may not repeat. A format says how its values are seen as truth values, integers, texts,
lists and tables.

## Main definitions

* `Source` — the views a format offers of its values
* `Source.slots?` — the values given for the fields of a record
* `Source.required`, `Source.orDefault`, `Source.optional` — what a field makes of its value
* `Source.choice?` — one of several names
-/

namespace SymbolSearch

/-- The views of a data format's values that records are read through. -/
class Source (α : Type) where
  /-- Whether a value stands for the absence of one. -/
  isNull : α → Bool
  /-- Whether a value may accompany the name of a choice that carries nothing. -/
  isUnit : α → Bool
  /-- The truth value, if it is one. -/
  bool? : α → Option Bool
  /-- The integer, if it is one. -/
  int? : α → Option Int
  /-- The text, if it is one. -/
  text? : α → Option String
  /-- The items of a list, if it is one. -/
  items? : α → Option (List α)
  /-- The members of a table, if it is one and all its keys can be read. -/
  members? : α → Option (List (String × α))
  /-- Whether a list given for a record may be longer than the record. -/
  allowsSurplus : Bool

namespace Source

variable {α β : Type} [Source α]

/-! ### Plain values -/

/-- An integer of 32 bits with a sign. -/
def int32? (v : α) : Option Int32 := do
  let n ← int? v
  if -0x80000000 ≤ n ∧ n < 0x80000000 then some (Int32.ofInt n) else none

/-- An integer of 32 bits without a sign. -/
def uint32? (v : α) : Option UInt32 := do
  let n ← int? v
  if 0 ≤ n ∧ n < 0x100000000 then some (UInt32.ofNat n.toNat) else none

/-- An integer of 64 bits without a sign. -/
def uint64? (v : α) : Option UInt64 := do
  let n ← int? v
  if 0 ≤ n ∧ n < 0x10000000000000000 then some (UInt64.ofNat n.toNat) else none

/-- A list of values of one shape. -/
def list? (read : α → Option β) (v : α) : Option (List β) := do (← items? v).mapM read

/-- One of several choices by its exact name: the name as a text, or a table with that name as its
only key and a value that carries nothing. -/
def choice? (ofName? : String → Option β) (v : α) : Option β :=
  match text? v with
  | some name => ofName? name
  | none =>
    match members? v with
    | some [(name, payload)] => if isUnit payload then ofName? name else none
    | _ => none

/-! ### Records -/

/-- The value of a member by its key. -/
def member? (members : List (String × α)) (key : String) : Option α := members.lookup key

/-- Whether a key occurs more than once among the members of a table. -/
def isRepeated (members : List (String × α)) (key : String) : Bool :=
  1 < (members.filter fun m => m.1 == key).length

/-- The values that a table gives for the fields of a record. -/
def tableSlots? (names : List String) (members : List (String × α)) : Option (List (Option α)) :=
  if names.any (isRepeated members) then none else some (names.map (member? members))

/-- The values that a list gives for the fields of a record, the missing ones at its end. -/
def listSlots? (names : List String) (items : List α) : Option (List (Option α)) :=
  if items.length ≤ names.length || allowsSurplus α then
    some ((items.map some ++ List.replicate names.length none).take names.length)
  else none

/-- The values given for the fields of a record, one for each name. -/
def slots? (names : List String) (v : α) : Option (List (Option α)) :=
  match items? v with
  | some items => listSlots? names items
  | none => (members? v).bind (tableSlots? names)

/-- A field that has to be given. -/
def required (read : α → Option β) (slot : Option α) : Option β := slot.bind read

/-- A field with a value of its own when it is not given. -/
def orDefault (default : β) (read : α → Option β) : Option α → Option β
  | none => some default
  | some v => read v

/-- A field that may be left out or be null. -/
def optional (read : α → Option β) : Option α → Option (Option β)
  | none => some none
  | some v => if isNull v then some none else (read v).map some

end Source

end SymbolSearch
