import SymbolSearch.Text.Pieces

/-!
# Kinds of symbols

The kind of a symbol is decided by the marker that ends its descriptor chain.

## Main definitions

* `SymbolKind` — the six kinds
* `SymbolKind.ofChain` — the kind of a descriptor chain
* `SymbolKind.name` / `SymbolKind.ofName?` — the kinds' names, read without regard to letter case
-/

namespace SymbolSearch

/-- What a symbol stands for. -/
inductive SymbolKind where
  | nameSpace
  | type
  | term
  | method
  | parameter
  | typeParameter
  deriving DecidableEq, Repr, Inhabited

namespace SymbolKind

/-- All kinds. -/
def all : List SymbolKind := [nameSpace, type, term, method, parameter, typeParameter]

/-- The name a kind is written with. -/
def name : SymbolKind → String
  | nameSpace => "namespace"
  | type => "type"
  | term => "term"
  | method => "method"
  | parameter => "parameter"
  | typeParameter => "typeparameter"

/-- The kind with exactly this name. -/
def ofExactName? (s : String) : Option SymbolKind := all.find? (fun k => k.name == s)

/-- The kind with this name, in any mixture of ASCII capitals and small letters. -/
def ofName? (s : String) : Option SymbolKind :=
  ofExactName? (String.ofList (s.toList.map Char.toLower))

/-- The kind of a descriptor chain: its last marker decides, with `().` taken before `.`; a chain
without a marker at its end is a parameter or a type parameter if it holds the brackets of one. -/
def ofChain (chain : List Char) : SymbolKind :=
  if ['(', ')', '.'].isSuffixOf chain then method
  else
    match chain.getLast? with
    | some '#' => type
    | some '.' => term
    | some '/' => nameSpace
    | _ =>
      if Text.contains ['#', '('] chain || Text.contains ['.', '('] chain then parameter
      else if chain.contains '[' && chain.contains ']' then typeParameter
      else nameSpace

@[simp] theorem ofExactName?_name (k : SymbolKind) : ofExactName? k.name = some k := by
  cases k <;> decide

end SymbolKind

end SymbolSearch
