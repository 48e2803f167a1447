import SymbolSearch.Symbol.Kind
import SymbolSearch.Text.Blank

/-!
# Symbols and their descriptors

A symbol is one line of text: a tool, a package manager, a package and a version, then a path
whose file name stands between backticks, then the chain of descriptors inside that file, as in
`tool manager package 1.0 dir/` followed by a quoted file name, `/` and `Type#member.`. Every text
is a symbol: what cannot be found in it is the empty text.

## Main definitions

* `Descriptor.packageName`, `Descriptor.filePath`, `Descriptor.chain` — the parts of a symbol
* `Descriptor.displayName` — the short name a descriptor chain is known by
* `Descriptor.parse` — all parts together
-/

namespace SymbolSearch

/-- The parts of a symbol. -/
structure Descriptor where
  /-- The package, empty unless all four fields before the path are given. -/
  packageName : String
  /-- The file that holds the symbol. -/
  filePath : String
  /-- The short name. -/
  displayName : String
  /-- The chain of descriptors inside the file. -/
  chain : String
  /-- The kind that the chain shows. -/
  kind : SymbolKind
  deriving DecidableEq, Repr

namespace Descriptor

/-- The third field of at least five, when the first four are not empty. -/
def packageOf (symbol : List Char) : List Char :=
  match Text.splitOn ' ' symbol with
  | tool :: manager :: package :: version :: _ :: _ =>
    if tool.isEmpty || manager.isEmpty || package.isEmpty || version.isEmpty then [] else package
  | _ => []

/-- Whether a character ends the content of a quoted segment. -/
def endsSegment (c : Char) : Bool := c == '\x60' || c == '\\'

/-- The content of a quoted segment at the start of a text: any number of backslashes, a backtick,
a content without backticks and backslashes that is not empty, any number of backslashes and a
backtick. -/
def quotedSegment? (s : List Char) : Option (List Char) :=
  match s.dropWhile (· == '\\') with
  | '\x60' :: body =>
    let content := body.takeWhile (fun c => !endsSegment c)
    match (body.dropWhile (fun c => !endsSegment c)).dropWhile (· == '\\') with
    | '\x60' :: _ => if content.isEmpty then none else some content
    | _ => none
  | _ => none

/-- Walks over a symbol with the blank-free run read so far, in reverse, and the best file path
found in that run. A slash inside a run with a quoted segment after it gives a file path; later
slashes of the same run give a better one, and the end of the run ends the search. -/
def filePathFrom (run : List Char) (best : Option (List Char)) : List Char → List Char
  | [] => best.getD []
  | c :: rest =>
    if Text.isBlank c then
      match best with
      | some path => path
      | none => filePathFrom [] none rest
    else if c = '/' && !run.isEmpty then
      match quotedSegment? rest with
      | some content => filePathFrom (c :: run) (some ((c :: run).reverse ++ content)) rest
      | none => filePathFrom (c :: run) best rest
    else filePathFrom (c :: run) best rest

/-- The file path in a symbol. -/
def filePathOf (symbol : List Char) : List Char := filePathFrom [] none symbol

/-- Walks over a symbol; `quoted` tells whether an odd number of backticks was passed, `found` is
what follows the last slash outside backticks, forgotten at a blank outside backticks. -/
def chainFrom (quoted : Bool) (found : Option (List Char)) : List Char → List Char
  | [] => found.getD []
  | c :: rest =>
    if c = '\x60' then chainFrom (!quoted) found rest
    else if quoted then chainFrom quoted found rest
    else if c = '/' then chainFrom quoted (some rest) rest
    else if Text.isBlank c then chainFrom quoted none rest
    else chainFrom quoted found rest

/-- The descriptor chain of a symbol. -/
def chainOf (symbol : List Char) : List Char := chainFrom false none symbol

/-- The markers that separate the links of a chain. -/
def isLink (c : Char) : Bool := c == '#' || c == '/'

/-- The markers that can end a chain. -/
def isMarker (c : Char) : Bool := c == '#' || c == '.' || c == '/'

/-- A text without one marker at its end. -/
def dropMarker (s : List Char) : List Char :=
  match s.getLast? with
  | some c => if isMarker c then s.dropLast else s
  | none => s

/-- The last link of a chain; a chain that ends in a link marker is taken whole. -/
def lastLink (chain : List Char) : List Char :=
  match Text.afterLast? isLink chain with
  | some (c :: rest) => c :: rest
  | _ => chain

/-- The short name of a descriptor chain: its last link without the marker at the end. -/
def displayNameOf (chain : List Char) : List Char := dropMarker (lastLink chain)

/-- All parts of a symbol. -/
def parse (symbol : String) : Descriptor :=
  let chain := chainOf symbol.toList
  { packageName := String.ofList (packageOf symbol.toList)
    filePath := String.ofList (filePathOf symbol.toList)
    displayName := String.ofList (displayNameOf chain)
    chain := String.ofList chain
    kind := SymbolKind.ofChain chain }

end Descriptor

end SymbolSearch
