import SymbolSearch.Proofs.Json.Reader
import SymbolSearch.Proofs.Json.Scan

/-!
# Texts that spell a value

A text spells a value if the reader, wherever it awaits a value, passes over the text and puts the
value in its place. Spellings of parts make up spellings of arrays and objects, so that what a
printer writes is shown to be read back piece by piece.

## Main definitions

* `Json.Spells` — a text spells a value
* `Json.SpellsItems`, `Json.SpellsMembers` — a text spells the inside of an array or an object

## Main results

* `Json.Spells.parse?_eq` — a text that spells a value is read as it
* `Json.spells_compact`, `Json.parse?_compact` — values on one line
-/

namespace SymbolSearch.Json

/-! ### Values -/

/-- Whether a value may come next. -/
def Expect.awaitsValue : Expect → Bool
  | .value | .firstItem => true
  | _ => false

/-- Whether a key may come next. -/
def Expect.awaitsKey : Expect → Bool
  | .firstKey | .key => true
  | _ => false

/-- Wherever a value is awaited, reading the text puts the value in its place. -/
def Spells (s : List Char) (v : Json) : Prop :=
  ∀ (expect : Expect) (stack : List Frame) (rest : List Char),
    expect.awaitsValue = true → EndsNumber rest →
      readFrom ⟨expect, stack⟩ (s ++ rest) =
        (State.complete v stack).bind fun state => readFrom state rest

variable {s t : List Char} {c : Char} {v : Json} {vs : List Json} {key : Literal}
  {ms : List (Literal × Json)}

theorem endsNumber_cons (h : carriesOn c = false) : EndsNumber (c :: s) := by
  intro d hd
  cases hd
  exact h

/-- Where a value is awaited, every token but a closing bracket begins one. -/
theorem step_of_awaitsValue {expect : Expect} {token : Token}
    (hexpect : expect.awaitsValue = true) (htoken : token ≠ .closeBracket) (stack : List Frame) :
    step ⟨expect, stack⟩ token = State.beginValue stack token := by
  cases expect with
  | value => cases stack <;> cases token <;> rfl
  | firstItem =>
    cases token with
    | closeBracket => exact absurd rfl htoken
    | _ => rcases stack with _ | ⟨⟨⟩, _⟩ <;> rfl
  | _ => cases hexpect

/-- A text that is one token spells the value of the token. -/
theorem Spells.of_next? (token : Token) (hc : isBlank c = false) (htoken : token ≠ .closeBracket)
    (hvalue : ∀ stack, State.beginValue stack token = State.complete v stack)
    (hnext : ∀ rest, EndsNumber rest → next? (c :: (s ++ rest)) = some (token, rest)) :
    Spells (c :: s) v := by
  intro expect stack rest hexpect hrest
  rw [List.cons_append, readFrom_token hc (hnext rest hrest), step_of_awaitsValue hexpect htoken,
    hvalue]

theorem Spells.parse?_eq (h : Spells s v) : parse? s = some v := by
  have hread := h .value [] [] rfl (by intro c hc; cases hc)
  rw [List.append_nil] at hread
  rw [parse?, State.start, hread, State.complete, Option.bind_some, readFrom_nil]

theorem spells_null : Spells ['n', 'u', 'l', 'l'] .null :=
  .of_next? (.scalar .null) rfl nofun (fun _ => rfl) fun _ _ => rfl

theorem spells_bool (b : Bool) : Spells (compact (.bool b)) (.bool b) := by
  cases b with
  | true => exact .of_next? (.scalar (.bool true)) rfl nofun (fun _ => rfl) fun _ _ => rfl
  | false => exact .of_next? (.scalar (.bool false)) rfl nofun (fun _ => rfl) fun _ _ => rfl

theorem isBlank_of_number (h : c = '-' ∨ c.isDigit = true) : isBlank c = false := by
  have hother : c ∉ [' ', '\n', '\r', '\t'] := not_mem_of_number (by decide) h
  simpa [isBlank, and_assoc] using hother

theorem spells_intText (n : Int) : Spells (intText n) (.int n) := by
  have hnext := fun rest (h : EndsNumber rest) => next?_intText n h
  obtain ⟨c, s, heq, hc⟩ := exists_intText_eq_cons n
  rw [heq] at hnext ⊢
  exact .of_next? (.scalar (.int n)) (isBlank_of_number hc) nofun (fun _ => rfl) hnext

theorem spells_decimalText (d : Decimal) : Spells (decimalText d) (.real d) := by
  have hnext := fun rest (h : EndsNumber rest) => next?_decimalText d h
  obtain ⟨c, s, heq, hc⟩ := exists_decimalText_eq_cons d
  rw [heq] at hnext ⊢
  exact .of_next? (.scalar (.real d)) (isBlank_of_number hc) nofun (fun _ => rfl) hnext

theorem exists_quote_eq_cons (s : Literal) : ∃ t, quote s = '\x22' :: t := by
  cases s <;> exact ⟨_, rfl⟩

theorem spells_quote (s : Literal) : Spells (quote s) (.str s) := by
  have hnext := next?_quote s
  obtain ⟨t, heq⟩ := exists_quote_eq_cons s
  rw [heq] at hnext ⊢
  exact .of_next? (.string s) rfl nofun (fun _ => rfl) fun rest _ => hnext rest

/-! ### Arrays -/

/-- Inside an open array, reading the text up to its bracket adds the items and closes it. -/
def SpellsItems (s : List Char) (vs : List Json) : Prop :=
  ∀ (expect : Expect) (read : List Json) (stack : List Frame) (rest : List Char),
    expect.awaitsValue = true →
      readFrom ⟨expect, .list read :: stack⟩ (s ++ ']' :: rest) =
        (State.complete (.arr (read.reverse ++ vs)) stack).bind fun state => readFrom state rest

theorem SpellsItems.last (h : Spells s v) : SpellsItems s [v] := by
  intro expect read stack rest hexpect
  rw [h expect _ _ hexpect (endsNumber_cons rfl), State.complete, Option.bind_some,
    readFrom_token rfl rfl, ← List.reverse_cons]
  rfl

theorem SpellsItems.cons (h : Spells s v) (ht : SpellsItems t vs) :
    SpellsItems (s ++ ',' :: t) (v :: vs) := by
  intro expect read stack rest hexpect
  rw [List.append_assoc, List.cons_append, h expect _ _ hexpect (endsNumber_cons rfl),
    State.complete, Option.bind_some, readFrom_token rfl rfl]
  -- Behind the comma a value is awaited again, with one item more in the array.
  change readFrom ⟨.value, .list (v :: read) :: stack⟩ _ = _
  rw [ht .value _ _ _ rfl, List.reverse_cons, List.append_assoc]
  rfl

theorem Spells.arr (h : SpellsItems s vs) : Spells ('[' :: s ++ [']']) (.arr vs) := by
  intro expect stack rest hexpect _
  have hopen : step ⟨expect, stack⟩ .openBracket = some ⟨.firstItem, .list [] :: stack⟩ :=
    step_of_awaitsValue hexpect Token.noConfusion stack
  rw [List.cons_append, List.cons_append, readFrom_token rfl rfl, hopen, Option.bind_some,
    List.append_assoc]
  exact h .firstItem [] stack rest rfl

theorem spells_arr_nil : Spells ['[', ']'] (.arr []) := by
  intro expect stack rest hexpect _
  have hopen : step ⟨expect, stack⟩ .openBracket = some ⟨.firstItem, .list [] :: stack⟩ :=
    step_of_awaitsValue hexpect Token.noConfusion stack
  rw [List.cons_append, List.cons_append, readFrom_token rfl rfl, hopen, Option.bind_some,
    readFrom_token rfl rfl]
  rfl

/-! ### Objects -/

/-- Inside an open object, reading the text up to its brace adds the members and closes it. -/
def SpellsMembers (s : List Char) (ms : List (Literal × Json)) : Prop :=
  ∀ (expect : Expect) (read : List (Literal × Json)) (stack : List Frame) (rest : List Char),
    expect.awaitsKey = true →
      readFrom ⟨expect, .record read :: stack⟩ (s ++ '\x7d' :: rest) =
        (State.complete (.obj (read.reverse ++ ms)) stack).bind fun state => readFrom state rest

theorem step_of_awaitsKey {expect : Expect} (hexpect : expect.awaitsKey = true) (key : Literal)
    (read : List (Literal × Json)) (stack : List Frame) :
    step ⟨expect, .record read :: stack⟩ (.string key) =
      some ⟨.colon, .member read key :: stack⟩ := by
  cases expect with
  | firstKey => rfl
  | key => rfl
  | _ => cases hexpect

/-- A member: its key, a colon and a spelling of its value. -/
theorem readFrom_member (key : Literal) (h : Spells s v) {expect : Expect}
    (read : List (Literal × Json)) (stack : List Frame) {rest : List Char}
    (hexpect : expect.awaitsKey = true) (hrest : EndsNumber rest) :
    readFrom ⟨expect, .record read :: stack⟩ (quote key ++ ':' :: (s ++ rest)) =
      readFrom ⟨.afterMember, .record ((key, v) :: read) :: stack⟩ rest := by
  have hnext := next?_quote key (':' :: (s ++ rest))
  obtain ⟨t, heq⟩ := exists_quote_eq_cons key
  rw [heq, List.cons_append] at hnext ⊢
  rw [readFrom_token rfl hnext, step_of_awaitsKey hexpect, Option.bind_some,
    readFrom_token rfl rfl]
  -- The key and the colon are read; the value completes the member.
  change readFrom ⟨.value, .member read key :: stack⟩ _ = _
  rw [h .value _ _ rfl hrest]
  rfl

theorem SpellsMembers.last (key : Literal) (h : Spells s v) :
    SpellsMembers (quote key ++ ':' :: s) [(key, v)] := by
  intro expect read stack rest hexpect
  rw [List.append_assoc, List.cons_append,
    readFrom_member key h read stack hexpect (endsNumber_cons rfl), readFrom_token rfl rfl,
    ← List.reverse_cons]
  rfl

theorem SpellsMembers.cons (key : Literal) (h : Spells s v) (ht : SpellsMembers t ms) :
    SpellsMembers (quote key ++ ':' :: s ++ ',' :: t) ((key, v) :: ms) := by
  intro expect read stack rest hexpect
  rw [List.append_assoc, List.append_assoc, List.cons_append, List.cons_append,
    readFrom_member key h read stack hexpect (endsNumber_cons rfl), readFrom_token rfl rfl]
  -- Behind the comma a key is awaited again, with one member more in the object.
  change readFrom ⟨.key, .record ((key, v) :: read) :: stack⟩ _ = _
  rw [ht .key _ _ _ rfl, List.reverse_cons, List.append_assoc]
  rfl

theorem Spells.obj (h : SpellsMembers s ms) : Spells ('\x7b' :: s ++ ['\x7d']) (.obj ms) := by
  intro expect stack rest hexpect _
  have hopen : step ⟨expect, stack⟩ .openBrace = some ⟨.firstKey, .record [] :: stack⟩ :=
    step_of_awaitsValue hexpect Token.noConfusion stack
  rw [List.cons_append, List.cons_append, readFrom_token rfl rfl, hopen, Option.bind_some,
    List.append_assoc]
  exact h .firstKey [] stack rest rfl

theorem spells_obj_nil : Spells ['\x7b', '\x7d'] (.obj []) := by
  intro expect stack rest hexpect _
  have hopen : step ⟨expect, stack⟩ .openBrace = some ⟨.firstKey, .record [] :: stack⟩ :=
    step_of_awaitsValue hexpect Token.noConfusion stack
  rw [List.cons_append, List.cons_append, readFrom_token rfl rfl, hopen, Option.bind_some,
    readFrom_token rfl rfl]
  rfl

/-! ### Values on one line -/

mutual

/-- A value on one line is a spelling of it. -/
theorem spells_compact : ∀ v, Spells (compact v) v
  | .null => spells_null
  | .bool b => spells_bool b
  | .int n => spells_intText n
  | .real d => spells_decimalText d
  | .str s => spells_quote s
  | .arr [] => spells_arr_nil
  | .arr (v :: vs) => .arr (spellsItems_compactItems (v :: vs) (List.cons_ne_nil v vs))
  | .obj [] => spells_obj_nil
  | .obj (m :: ms) => .obj (spellsMembers_compactMembers (m :: ms) (List.cons_ne_nil m ms))

theorem spellsItems_compactItems : ∀ vs, vs ≠ [] → SpellsItems (compactItems vs) vs
  | [], h => absurd rfl h
  | [v], _ => .last (spells_compact v)
  | v :: w :: vs, _ =>
    .cons (spells_compact v) (spellsItems_compactItems (w :: vs) (List.cons_ne_nil w vs))

theorem spellsMembers_compactMembers : ∀ ms, ms ≠ [] → SpellsMembers (compactMembers ms) ms
  | [], h => absurd rfl h
  | [(key, v)], _ => .last key (spells_compact v)
  | (key, v) :: m :: ms, _ =>
    .cons key (spells_compact v)
      (spellsMembers_compactMembers (m :: ms) (List.cons_ne_nil m ms))

end

/-- Reading a value that was written on one line gives the value back. -/
theorem parse?_compact (v : Json) : parse? (compact v) = some v := (spells_compact v).parse?_eq

end SymbolSearch.Json
