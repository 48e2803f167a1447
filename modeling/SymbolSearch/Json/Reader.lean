import SymbolSearch.Json.Token

/-!
# Reading JSON

A text is read token by token with a stack of the arrays and objects that are still open, so that
nesting is bounded by the text alone. Reading is strict: one value, blanks around it, nothing else.

## Main definitions

* `Json.Frame`, `Json.Expect`, `Json.State` — what is open and what may come next
* `Json.step` — the effect of a token
* `Json.parse?` — the value of a text
-/

namespace SymbolSearch.Json

/-- An array or object that is still open, with what it holds so far in reverse. -/
inductive Frame where
  /-- An open array. -/
  | list (items : List Json)
  /-- An open object between two members. -/
  | record (members : List (Literal × Json))
  /-- An open object with the key of the member whose value is awaited. -/
  | member (members : List (Literal × Json)) (key : Literal)

/-- What may come next. -/
inductive Expect where
  /-- A value. -/
  | value
  /-- The first item of an array, or its end. -/
  | firstItem
  /-- A comma or the end of an array. -/
  | afterItem
  /-- The first key of an object, or its end. -/
  | firstKey
  /-- A key. -/
  | key
  /-- The colon after a key. -/
  | colon
  /-- A comma or the end of an object. -/
  | afterMember
  /-- Nothing: the value is complete. -/
  | nothing (v : Json)

/-- How far a text has been read. -/
structure State where
  /-- What may come next. -/
  expect : Expect
  /-- What is open, the innermost first. -/
  stack : List Frame

/-- The state before the first token. -/
def State.start : State := ⟨.value, []⟩

/-- A value takes its place in the innermost open array or object. -/
def State.complete (v : Json) : List Frame → Option State
  | [] => some ⟨.nothing v, []⟩
  | .list items :: stack => some ⟨.afterItem, .list (v :: items) :: stack⟩
  | .member members key :: stack => some ⟨.afterMember, .record ((key, v) :: members) :: stack⟩
  | .record _ :: _ => none

/-- The start of a value. -/
def State.beginValue (stack : List Frame) : Token → Option State
  | .scalar v => complete v stack
  | .string s => complete (.str s) stack
  | .openBracket => some ⟨.firstItem, .list [] :: stack⟩
  | .openBrace => some ⟨.firstKey, .record [] :: stack⟩
  | _ => none

/-- The effect of a token. -/
def step (state : State) (token : Token) : Option State :=
  match state.expect, state.stack, token with
  | .firstItem, .list _ :: stack, .closeBracket => State.complete (.arr []) stack
  | .afterItem, .list items :: stack, .closeBracket => State.complete (.arr items.reverse) stack
  | .afterItem, stack, .comma => some ⟨.value, stack⟩
  | .firstKey, .record _ :: stack, .closeBrace => State.complete (.obj []) stack
  | .firstKey, .record members :: stack, .string key => some ⟨.colon, .member members key :: stack⟩
  | .key, .record members :: stack, .string key => some ⟨.colon, .member members key :: stack⟩
  | .colon, stack, .colon => some ⟨.value, stack⟩
  | .afterMember, .record members :: stack, .closeBrace =>
    State.complete (.obj members.reverse) stack
  | .afterMember, stack, .comma => some ⟨.key, stack⟩
  | .value, stack, token => State.beginValue stack token
  | .firstItem, stack, token => State.beginValue stack token
  | _, _, _ => none

/-- The state after a whole text. -/
def readFrom (state : State) (s : List Char) : Option State :=
  match _h : s.dropWhile isBlank with
  | [] => some state
  | c :: rest =>
    match _hn : next? (c :: rest) with
    | none => none
    | some (token, after) =>
      match step state token with
      | none => none
      | some state => readFrom state after
termination_by s.length
decreasing_by
  have hlt := length_of_next? _hn
  have hle := length_dropWhile_le isBlank s
  rw [_h] at hle
  omega

/-- The value of a JSON text. -/
def parse? (s : List Char) : Option Json :=
  match readFrom State.start s with
  | some ⟨.nothing v, []⟩ => some v
  | _ => none

end SymbolSearch.Json
