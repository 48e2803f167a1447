import SymbolSearch.Symbol.Kind

/-!
# Queries and descriptor patterns

What a user types is a query: a plain name such as `Ticket`, or a qualified one such as
`Ticket.title`, `Ticket#title` or `Service.run()`. A qualified query is compared with descriptor
chains through its pattern, the way the chain would end in a symbol.

## Main definitions

* `Query.isQualified` — whether a query names a member of something
* `Query.pattern` — the ending of the descriptor chains a qualified query looks for
* `Query.guessKind?` — the kind a query shows by its punctuation
* `Query.closing` — what becomes of open parentheses in a text
* `Query.dropParameters` — a query without its parameter list
-/

namespace SymbolSearch.Query

/-- The empty parameter list that marks a method in a query. -/
def call : List Char := ['(', ')']

/-- A query with a dot or a hash names a member of something. -/
def isQualified (query : List Char) : Bool := query.contains '.' || query.contains '#'

/-- The characters that end a complete pattern. -/
def endsPattern (c : Char) : Bool := c == '.' || c == '#' || c == '/'

/-- A pattern in hash notation, completed by the dot that ends a member. -/
def completePattern (query : List Char) : List Char :=
  if call.isSuffixOf query then query ++ ['.']
  else
    match query.getLast? with
    | some c => if endsPattern c then query else query ++ ['.']
    | none => query ++ ['.']

/-- A dotted query in hash notation: the last piece is the member, the pieces before it its scope. -/
def hashPattern (scope : List (List Char)) (member : List Char) : List Char :=
  Text.join ['#'] scope ++ ['#'] ++ member ++ ['.']

/-- The ending of the descriptor chains that a query looks for. A query without a dot and without
a hash is its own pattern. -/
def pattern (query : List Char) : List Char :=
  if query.contains '#' then completePattern query
  else
    match (Text.splitOn '.' query).reverse with
    | member :: piece :: pieces => hashPattern (piece :: pieces).reverse member
    | _ => query

/-- The kind a query shows: a parenthesis means a method, else a dot means a term. -/
def guessKind? (query : List Char) : Option SymbolKind :=
  if query.contains '(' then some .method
  else if query.contains '.' then some .term
  else none

/-- What becomes of open parentheses in a text. -/
inductive Closing where
  /-- The outermost one is closed. -/
  | closed
  /-- The text ends before the outermost one is closed. -/
  | unclosed
  /-- One more is closed than was open. -/
  | stray
  deriving DecidableEq, Repr

/-- What becomes of `depth` open parentheses in a text. -/
def closing (depth : Nat) : List Char → Closing
  | [] => .unclosed
  | c :: rest =>
    if c = '(' then closing (depth + 1) rest
    else if c = ')' then
      match depth with
      | 0 => .stray
      | 1 => .closed
      | outer + 1 => closing outer rest
    else closing depth rest

/-- A query without its parameter list: the text before the first parenthesis if that parenthesis
is closed, and the query itself otherwise. -/
def dropParameters (query : List Char) : List Char :=
  match closing 0 (query.dropWhile (· != '(')) with
  | .closed => query.takeWhile (· != '(')
  | _ => query

end SymbolSearch.Query
