import Mathlib.Data.List.Forall2
import Mathlib.Data.Nat.Bitwise
import SymbolSearch.Proofs.Json.Pretty
import SymbolSearch.Report

/-!
# Reports as JSON

The JSON report on a search can be read by every strict reader, whatever characters the symbol and
the paths of the files have, and it states the symbol, the number of hits and the hits in order.
The roles of a hit are the four lowest bits of its mask.

## Main definitions

* `Report.roleNames` — the roles by the bits of a mask
* `Report.States` — a value states a hit

## Main results

* `Roles.has_eq_testBit` — a role is a bit of the mask
* `Report.parse?_render_json` — what a JSON report is read as
-/

namespace SymbolSearch

/-! ### Roles as bits -/

/-- The place of a role in a mask. -/
def Role.place : Role → Nat
  | definition => 0
  | reference => 1
  | imported => 2
  | exported => 3

theorem Role.toNat_bit (r : Role) : r.bit.toNat = 2 ^ r.place := by cases r <;> rfl

theorem Roles.has_eq_testBit (roles : Roles) (r : Role) :
    roles.has r = roles.mask.toNat.testBit r.place := by
  have hand : (roles.mask &&& r.bit).toNat =
      (roles.mask.toNat.testBit r.place).toNat * 2 ^ r.place := by
    rw [UInt32.toNat_and, r.toNat_bit, Nat.and_two_pow]
  have hzero : roles.mask &&& r.bit = 0 ↔ (roles.mask.toNat.testBit r.place) = false := by
    rw [← UInt32.toNat_inj, hand]
    cases roles.mask.toNat.testBit r.place <;> simp
  rw [Roles.has, Bool.eq_iff_iff, bne_iff_ne, ne_eq, hzero, Bool.not_eq_false]

namespace Report

open Query

/-- The names of roles by their place in a mask. -/
def roleNames : List (Nat × String) :=
  [(0, "Definition"), (1, "Reference"), (2, "Import"), (3, "Export")]

theorem roleText_eq (roles : Roles) :
    roleText roles =
      ", ".intercalate ((roleNames.filter fun r => roles.mask.toNat.testBit r.1).map Prod.snd) := by
  have hnames : roleNames = Role.all.map fun r => (r.place, r.name) := rfl
  rw [roleText, Roles.names, hnames, List.filter_map, List.map_map]
  congr 2
  exact List.filter_congr fun r _ => roles.has_eq_testBit r

/-- A value states a hit: its file, its range, the names of its roles, and its roles one by one. -/
def States (hit : Hit) (v : Json) : Prop :=
  let o := hit.occurrence
  let roles := o.roles.mask.toNat
  v = Json.record
    [("file", Json.text o.file),
     ("line", .int o.line.toNat),
     ("column", .int o.column.toNat),
     ("endLine", .int o.endLine.toNat),
     ("endColumn", .int o.endColumn.toNat),
     ("role", Json.text
       (", ".intercalate ((roleNames.filter fun r => roles.testBit r.1).map Prod.snd))),
     ("isDefinition", .bool (roles.testBit 0)),
     ("isReference", .bool (roles.testBit 1)),
     ("isImport", .bool (roles.testBit 2)),
     ("isExport", .bool (roles.testBit 3))]

theorem states_hitDocument (hit : Hit) : States hit (hitDocument hit) := by
  simp only [States, hitDocument, roleText_eq, Roles.has_eq_testBit, Role.place]

/-- A JSON report is read, whole, as an object with the symbol, a value for each hit, in order, and
the number of hits. -/
theorem parse?_render_json (symbol : String) (hits : List Hit) :
    ∃ values, List.Forall₂ States hits values ∧
      Json.parse? (render .json symbol hits).toList =
        some (Json.record
          [("symbol", Json.text symbol), ("occurrences", .arr values), ("count", .int hits.length)]) := by
  refine ⟨hits.map hitDocument, ?_, ?_⟩
  · rw [List.forall₂_map_right_iff, List.forall₂_same]
    exact fun hit _ => states_hitDocument hit
  · rw [render, String.toList_ofList, Json.parse?_pretty]
    rfl

end Report

end SymbolSearch
