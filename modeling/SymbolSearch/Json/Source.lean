import SymbolSearch.Data.Source
import SymbolSearch.Json.Value

/-!
# Records in JSON

JSON values as a source of records: absence is `null`, which also accompanies the name of a choice,
and a list given for a record may not be longer than the record.
-/

namespace SymbolSearch.Json

/-- The members of an object with readable keys. -/
def readableMembers? (members : List (Literal × Json)) : Option (List (String × Json)) :=
  members.mapM fun (key, v) => key.map (·, v)

instance : Source Json where
  isNull
    | .null => true
    | _ => false
  isUnit
    | .null => true
    | _ => false
  bool?
    | .bool b => some b
    | _ => none
  int?
    | .int n => some n
    | _ => none
  text?
    | .str s => s
    | _ => none
  items?
    | .arr items => some items
    | _ => none
  members?
    | .obj members => readableMembers? members
    | _ => none
  allowsSurplus := false

end SymbolSearch.Json
