import SymbolSearch.Proofs.Json.Spelling

/-!
# Values over several lines

The printer that writes a value over several lines puts line breaks and blanks between the tokens,
and the reader passes over them. So blanks on either side of a spelling make another spelling, and
what was written over several lines is read back like what was written on one.

## Main results

* `Json.Spells.blanks_append`, `Json.Spells.append_blanks` — spellings with blanks around them
* `Json.spells_prettyAt`, `Json.parse?_pretty` — values over several lines
-/

namespace SymbolSearch.Json

variable {s blanks : List Char} {v : Json} {vs : List Json} {ms : List (Literal × Json)}

/-! ### Blanks between tokens -/

theorem readFrom_blanks_append (hblanks : ∀ c ∈ blanks, isBlank c = true) (state : State) :
    readFrom state (blanks ++ s) = readFrom state s := by
  rw [← readFrom_dropWhile, List.dropWhile_append_of_pos hblanks, readFrom_dropWhile]

theorem isBlank_of_mem_newline (level : Nat) : ∀ c ∈ newline level, isBlank c = true := by
  intro c hc
  rcases List.mem_cons.mp hc with rfl | hspace
  · rfl
  · rw [List.eq_of_mem_replicate hspace]
    rfl

/-- A number ends before blanks, or where it ends without them. -/
theorem endsNumber_blanks_append {rest : List Char} (hblanks : ∀ c ∈ blanks, isBlank c = true)
    (hrest : EndsNumber rest) : EndsNumber (blanks ++ rest) := by
  cases blanks with
  | nil => exact hrest
  | cons c blanks =>
    have hc := hblanks c List.mem_cons_self
    simp only [isBlank, Bool.or_eq_true, beq_iff_eq] at hc
    apply endsNumber_cons
    rcases hc with ((rfl | rfl) | rfl) | rfl <;> rfl

theorem Spells.blanks_append (hblanks : ∀ c ∈ blanks, isBlank c = true) (h : Spells s v) :
    Spells (blanks ++ s) v := by
  intro expect stack rest hexpect hrest
  rw [List.append_assoc, readFrom_blanks_append hblanks, h expect stack rest hexpect hrest]

theorem Spells.append_blanks (h : Spells s v) (hblanks : ∀ c ∈ blanks, isBlank c = true) :
    Spells (s ++ blanks) v := by
  intro expect stack rest hexpect hrest
  have hends := endsNumber_blanks_append hblanks hrest
  rw [List.append_assoc, h expect stack _ hexpect hends]
  simp only [readFrom_blanks_append hblanks]

theorem SpellsItems.blanks_append (hblanks : ∀ c ∈ blanks, isBlank c = true)
    (h : SpellsItems s vs) : SpellsItems (blanks ++ s) vs := by
  intro expect read stack rest hexpect
  rw [List.append_assoc, readFrom_blanks_append hblanks, h expect read stack rest hexpect]

theorem SpellsMembers.blanks_append (hblanks : ∀ c ∈ blanks, isBlank c = true)
    (h : SpellsMembers s ms) : SpellsMembers (blanks ++ s) ms := by
  intro expect read stack rest hexpect
  rw [List.append_assoc, readFrom_blanks_append hblanks, h expect read stack rest hexpect]

/-! ### Values over several lines -/

theorem isBlank_of_mem_space : ∀ c ∈ [' '], isBlank c = true := by
  intro c hc
  rw [List.mem_singleton.mp hc]
  rfl

mutual

/-- A value over several lines is a spelling of it, at every level. -/
theorem spells_prettyAt : ∀ (level : Nat) (v : Json), Spells (prettyAt level v) v
  | _, .null => spells_null
  | _, .bool true => spells_bool true
  | _, .bool false => spells_bool false
  | _, .int n => spells_intText n
  | _, .real d => spells_decimalText d
  | _, .str s => spells_quote s
  | _, .arr [] => spells_arr_nil
  | level, .arr (v :: vs) => by
    have hitems := spellsItems_prettyItems (level + 1) (v :: vs) (List.cons_ne_nil v vs) level
    have harr := Spells.arr (hitems.blanks_append (isBlank_of_mem_newline (level + 1)))
    simpa only [prettyAt, List.cons_append, List.append_assoc] using harr
  | _, .obj [] => spells_obj_nil
  | level, .obj (m :: ms) => by
    have hmembers := spellsMembers_prettyMembers (level + 1) (m :: ms) (List.cons_ne_nil m ms) level
    have hobj := Spells.obj (hmembers.blanks_append (isBlank_of_mem_newline (level + 1)))
    simpa only [prettyAt, List.cons_append, List.append_assoc] using hobj

/-- The items of an array, with the line break before its bracket. -/
theorem spellsItems_prettyItems : ∀ (level : Nat) (vs : List Json), vs ≠ [] → ∀ outer : Nat,
    SpellsItems (prettyItems level vs ++ newline outer) vs
  | _, [], h, _ => absurd rfl h
  | level, [v], _, outer =>
    .last ((spells_prettyAt level v).append_blanks (isBlank_of_mem_newline outer))
  | level, v :: w :: vs, _, outer => by
    have hrest := spellsItems_prettyItems level (w :: vs) (List.cons_ne_nil w vs) outer
    have hitems := SpellsItems.cons (spells_prettyAt level v)
      (hrest.blanks_append (isBlank_of_mem_newline level))
    simpa only [prettyItems, List.append_assoc, List.cons_append] using hitems

/-- The members of an object, with the line break before its brace. -/
theorem spellsMembers_prettyMembers : ∀ (level : Nat) (ms : List (Literal × Json)), ms ≠ [] →
    ∀ outer : Nat, SpellsMembers (prettyMembers level ms ++ newline outer) ms
  | _, [], h, _ => absurd rfl h
  | level, [(key, v)], _, outer => by
    have hvalue := (spells_prettyAt level v).blanks_append isBlank_of_mem_space
    have hmember := SpellsMembers.last key (hvalue.append_blanks (isBlank_of_mem_newline outer))
    simpa only [prettyMembers, List.append_assoc, List.cons_append, List.nil_append] using hmember
  | level, (key, v) :: m :: ms, _, outer => by
    have hvalue := (spells_prettyAt level v).blanks_append isBlank_of_mem_space
    have hrest := spellsMembers_prettyMembers level (m :: ms) (List.cons_ne_nil m ms) outer
    have hmembers := SpellsMembers.cons key hvalue
      (hrest.blanks_append (isBlank_of_mem_newline level))
    simpa only [prettyMembers, List.append_assoc, List.cons_append, List.nil_append] using hmembers

end

/-- Reading a value that was written over several lines gives the value back. -/
theorem parse?_pretty (v : Json) : parse? (pretty v) = some v := (spells_prettyAt 0 v).parse?_eq

end SymbolSearch.Json
