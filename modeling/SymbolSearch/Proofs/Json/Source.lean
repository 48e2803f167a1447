import Mathlib.Data.List.Forall2
import SymbolSearch.Json.Source

/-!
# Written values and the readers of records

A value that was written from a number, a text, a list or a record gives it back to the reader of
such values.

## Main results

* `Source.optional_map` — a field that may be left out
* `Source.list?_of_forall₂` — lists
* `Source.tableSlots?_of_nodup`, `Source.tableSlots?_filter` — tables whose keys differ, also with
  some members left out
* `Json.slots?_record`, `Json.slots?_arr` — the values an object or an array gives for the fields of
  a record
-/

namespace SymbolSearch

namespace Source

variable {α β : Type} [Source α] {read : α → Option β}

theorem optional_of_eq_some {v : α} {b : β} (hnull : isNull v = false) (h : read v = some b) :
    Source.optional read (some v) = some (some b) := by
  rw [Source.optional, hnull, h]
  rfl

/-- A field that was written if it has a value is read back. -/
theorem optional_map {write : β → α} (hnull : ∀ b, isNull (write b) = false)
    (h : ∀ b, read (write b) = some b) (b : Option β) :
    Source.optional read (b.map write) = some b := by
  cases b with
  | none => rfl
  | some b => exact optional_of_eq_some (hnull b) (h b)

/-- A list whose items are read one by one. -/
theorem list?_of_forall₂ {v : α} {vs : List α} {bs : List β} (hitems : items? v = some vs)
    (h : List.Forall₂ (fun b v => read v = some b) bs vs) : list? read v = some bs := by
  rw [list?, hitems]
  change vs.mapM read = some bs
  clear hitems
  induction h with
  | nil => rfl
  | cons hhead _ ih =>
    rw [List.mapM_cons, hhead, ih]
    rfl

omit [Source α] in
theorem isRepeated_of_nodup {members : List (String × α)} (h : (members.map Prod.fst).Nodup)
    (key : String) : isRepeated members key = false := by
  have hcount : (members.filter fun m => m.1 == key).length = (members.map Prod.fst).count key := by
    rw [List.count, List.countP_map, List.countP_eq_length_filter]
    rfl
  rw [isRepeated, hcount, decide_eq_false_iff_not, Nat.not_lt]
  exact List.nodup_iff_count.mp h key

omit [Source α] in
/-- A table whose keys differ gives for each field what it has under its name. -/
theorem tableSlots?_of_nodup {members : List (String × α)} (h : (members.map Prod.fst).Nodup)
    (names : List String) : tableSlots? names members = some (names.map (member? members)) := by
  have hany : names.any (isRepeated members) = false := by
    rw [List.any_eq_false]
    intro name _
    rw [isRepeated_of_nodup h]
    exact Bool.false_ne_true
  rw [tableSlots?, hany]
  rfl

omit [Source α] in
theorem lookup_filter (p : String → Bool) (members : List (String × α)) (key : String) :
    (members.filter fun member => p member.1).lookup key =
      if p key then members.lookup key else none := by
  induction members with
  | nil => simp
  | cons member members ih =>
    obtain ⟨k, v⟩ := member
    by_cases hk : key = k
    · subst hk
      cases hp : p key <;> simp [hp, ih]
    · have hbeq : (key == k) = false := beq_eq_false_iff_ne.mpr hk
      cases hp : p k <;> simp [hp, ih, List.lookup_cons, hbeq]

omit [Source α] in
/-- A table without some of its members gives no value for their names. -/
theorem tableSlots?_filter {members : List (String × α)} {names : List String}
    (hkeys : members.map Prod.fst = names) (hnames : names.Nodup) (p : String → Bool) :
    tableSlots? names (members.filter fun member => p member.1) =
      some (names.map fun name => if p name then members.lookup name else none) := by
  have hrest : ((members.filter fun member => p member.1).map Prod.fst).Nodup :=
    (hkeys ▸ hnames).sublist (List.filter_sublist.map Prod.fst)
  rw [tableSlots?_of_nodup hrest]
  exact congrArg some (List.map_congr_left fun name _ => lookup_filter p members name)

end Source

namespace Json

open Source

theorem members?_record (members : List (String × Json)) :
    members? (record members) = some members := by
  change readableMembers? (members.map _) = _
  induction members with
  | nil => rfl
  | cons m members ih =>
    rw [readableMembers?] at ih ⊢
    rw [List.map_cons, List.mapM_cons, ih]
    rfl

theorem slots?_record (names : List String) (members : List (String × Json)) :
    slots? names (record members) = tableSlots? names members := by
  change (members? (record members)).bind _ = _
  rw [members?_record]
  rfl

/-- An array gives its items for the first fields and nothing for those behind them. -/
theorem slots?_arr {names : List String} {items : List Json} (h : items.length ≤ names.length) :
    slots? names (.arr items) =
      some (items.map some ++ List.replicate (names.length - items.length) none) := by
  have hfits : (decide (items.length ≤ names.length) || allowsSurplus Json) = true := by simp [h]
  change listSlots? names items = _
  rw [listSlots?, if_pos hfits, List.take_append, List.take_replicate, List.length_map,
    List.take_of_length_le (by simpa using h), Nat.min_eq_left (Nat.sub_le _ _)]

/-- A number of 32 bits with a sign. -/
def ofInt32 (n : Int32) : Json := .int n.toInt

theorem int32?_ofInt32 (n : Int32) : int32? (ofInt32 n) = some n := by
  have hrange : -0x80000000 ≤ n.toInt ∧ n.toInt < 0x80000000 := ⟨n.le_toInt, n.toInt_lt⟩
  change (if -0x80000000 ≤ n.toInt ∧ n.toInt < 0x80000000 then some (Int32.ofInt n.toInt)
    else none) = _
  rw [if_pos hrange, Int32.ofInt_toInt]

theorem optional_ofInt32 (n : Option Int32) : optional int32? (n.map ofInt32) = some n :=
  optional_map (fun _ => rfl) int32?_ofInt32 n

theorem optional_text (s : Option String) : optional Source.text? (s.map text) = some s :=
  optional_map (fun s => (rfl : isNull (text s) = false)) (fun _ => rfl) s

end Json

end SymbolSearch
