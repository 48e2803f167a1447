/-!
# Roles of an occurrence

An occurrence of a symbol plays one or more roles, given as a mask of 32 bits.

## Main definitions

* `Role` — the four roles that have a name
* `Roles` — a mask of roles
* `Roles.has`, `Roles.names` — the roles set in a mask
-/

namespace SymbolSearch

/-- A role that an occurrence of a symbol can play. -/
inductive Role where
  | definition
  | reference
  | imported
  | exported
  deriving DecidableEq, Repr

namespace Role

/-- All roles, in the order they are listed in. -/
def all : List Role := [definition, reference, imported, exported]

/-- The bit of a mask that stands for a role. -/
def bit : Role → UInt32
  | definition => 0x1
  | reference => 0x2
  | imported => 0x4
  | exported => 0x8

/-- The name a role is shown with. -/
def name : Role → String
  | definition => "Definition"
  | reference => "Reference"
  | imported => "Import"
  | exported => "Export"

/-- The name of the one role a mask stands for; any other mask is unknown. -/
def nameOfMask (mask : UInt32) : String :=
  match all.find? (fun r => r.bit == mask) with
  | some r => r.name
  | none => "Unknown"

end Role

/-- A set of roles as a mask; bits without a role may be set. -/
structure Roles where
  /-- The mask. -/
  mask : UInt32
  deriving DecidableEq, Repr, Inhabited

namespace Roles

/-- Whether a role is set in the mask. -/
def has (roles : Roles) (r : Role) : Bool := roles.mask &&& r.bit != 0

/-- The names of the roles set in the mask, in the fixed order of `Role.all`. -/
def names (roles : Roles) : List String := (Role.all.filter roles.has).map Role.name

end Roles

end SymbolSearch
