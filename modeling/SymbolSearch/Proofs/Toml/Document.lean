import SymbolSearch.Proofs.Toml.Value

/-!
# Documents are read block by block

A document that was written from blocks is read by opening a table for each header and giving values
to keys for each of the lines below it, and nothing else happens: what the lines say is what the
blocks say.

## Main definitions

* `Toml.Block.extend?` — what a block does to a document under construction
* `Toml.Block.IsPlain` — the keys and numbers of a block can be written
* `Toml.Affects` — what reading a text does to a document under construction

## Main results

* `Toml.Affects.line` — reading a line
* `Toml.Block.IsPlain.affects_render` — a block does what it says
* `Toml.parse?_render` — a document is read block by block
-/

namespace SymbolSearch.Toml

variable {s t rest : List Char} {effect next : Draft → Option Draft} {b : Block}

/-! ### Lines -/

/-- Reading the text at the start of a line changes the document under construction, or fails, as
`effect` does. The length of the text is enough fuel, and leaves enough for what follows. -/
def Affects (s : List Char) (effect : Draft → Option Draft) : Prop :=
  ∀ (fuel : Nat) (draft : Draft) (rest : List Char), (s ++ rest).length ≤ fuel →
    ∃ left, rest.length ≤ left ∧
      scanLines fuel draft (s ++ rest) = (effect draft).bind fun draft => scanLines left draft rest

theorem Affects.nil : Affects [] some :=
  fun fuel _ _ hfuel => ⟨fuel, hfuel, rfl⟩

theorem Affects.append (hs : Affects s effect) (ht : Affects t next) :
    Affects (s ++ t) fun draft => (effect draft).bind next := by
  intro fuel draft rest hfuel
  rw [List.append_assoc] at hfuel ⊢
  obtain ⟨left, hleft, heq⟩ := hs fuel draft (t ++ rest) hfuel
  cases heffect : effect draft with
  | none =>
    refine ⟨rest.length, Nat.le_refl _, ?_⟩
    simp only [heq, heffect, Option.bind_none]
  | some draft' =>
    obtain ⟨left', hleft', heq'⟩ := ht left draft' rest hleft
    refine ⟨left', hleft', ?_⟩
    simp only [heq, heffect, Option.bind_some, heq']

/-- Texts one after the other do what they do one after the other. -/
theorem Affects.flatMap {α : Type} {write : α → List Char} {does : Draft → α → Option Draft}
    {items : List α} (h : ∀ a ∈ items, Affects (write a) fun draft => does draft a) :
    Affects (items.flatMap write) fun draft => items.foldlM does draft := by
  induction items with
  | nil => exact Affects.nil
  | cons a items ih =>
    rw [List.forall_mem_cons] at h
    rw [List.flatMap_cons]
    simp only [List.foldlM_cons]
    exact h.1.append (ih h.2)

theorem affects_blank_line : Affects ['\n'] some := by
  intro fuel draft rest hfuel
  obtain ⟨fuel, rfl⟩ : ∃ n, fuel = n + 1 :=
    Nat.exists_eq_add_one.mpr (Nat.lt_of_lt_of_le (by simp) hfuel)
  exact ⟨fuel, Nat.le_of_succ_le_succ hfuel, rfl⟩

/-- Whether a line can start with a character: it is neither a blank nor part of a line break. -/
def startsLine (c : Char) : Bool := !isSpace c && c != '\n' && c != '\r'

theorem Affects.line {c : Char} (hc : startsLine c = true)
    (h : ∀ draft rest, scanLine draft (c :: s ++ '\n' :: rest) =
      (effect draft).map fun draft => (draft, '\n' :: rest)) :
    Affects (c :: s ++ ['\n']) effect := by
  intro fuel draft rest hfuel
  obtain ⟨fuel, rfl⟩ : ∃ n, fuel = n + 1 :=
    Nat.exists_eq_add_one.mpr (Nat.lt_of_lt_of_le (by simp) hfuel)
  refine ⟨fuel, ?_, ?_⟩
  · simp only [List.length_append, List.length_cons] at hfuel
    omega
  · simp only [startsLine, Bool.and_eq_true, Bool.not_eq_true', bne_iff_ne] at hc
    obtain ⟨⟨hspace, hnewline⟩, hreturn⟩ := hc
    have hline := h draft rest
    have hskip : skipSpace (c :: (s ++ '\n' :: rest)) = c :: (s ++ '\n' :: rest) :=
      List.dropWhile_cons_of_neg (by simp [hspace])
    have hnone : newline? (c :: (s ++ '\n' :: rest)) = none := by
      rw [newline?]
      · rintro _ ⟨⟩
        exact hnewline rfl
      · intro _ heq
        exact hreturn (List.cons.inj heq).1
    rw [List.append_assoc, List.cons_append, List.singleton_append, scanLines]
    rw [List.cons_append] at hline
    simp only [hskip, hnone, hline]
    cases effect draft <;> rfl

/-! ### Blocks -/

namespace Block

/-- Opens the table or the element of the header. -/
def open? (b : Block) (draft : Draft) : Option Draft :=
  b.header.getLast?.bind fun key =>
    if b.isElement then draft.openElement? b.header.dropLast key
    else draft.openTable? b.header.dropLast key

/-- Gives a value to a key in the table of the last header. -/
def assign? (draft : Draft) (entry : String × Scalar) : Option Draft :=
  draft.assign? [] entry.1 entry.2.value

/-- What a block does to a document under construction: its header opens a table, and its entries are
put there. -/
def extend? (draft : Draft) (b : Block) : Option Draft :=
  (b.open? draft).bind fun draft => b.entries.foldlM assign? draft

/-- The keys of a block need no quotes and its numbers are within range. -/
structure IsPlain (b : Block) : Prop where
  header_ne_nil : b.header ≠ []
  header_length : b.header.length ≤ maxDepth
  header_bare : ∀ key ∈ b.header, isBareKey key = true
  entries_bare : ∀ entry ∈ b.entries, isBareKey entry.1 = true
  entries_inRange : ∀ entry ∈ b.entries, entry.2.InRange

theorem scanPair_entry {entry : String × Scalar} (hkey : isBareKey entry.1 = true)
    (hvalue : entry.2.InRange) (rest : List Char) :
    scanPair (scanValue maxDepth)
        (entry.1.toList ++ ([' ', '=', ' '] ++ (entry.2.render ++ '\n' :: rest))) =
      some (([], entry.1, entry.2.value), '\n' :: rest) := by
  have hscan : scanKey maxDepth
      (entry.1.toList ++ ([' ', '=', ' '] ++ (entry.2.render ++ '\n' :: rest))) =
        some (([], entry.1), '=' :: ' ' :: (entry.2.render ++ '\n' :: rest)) :=
    scanKey_join [] entry.1 (by decide) (by simpa using hkey) (by simp [isBareKeyChar])
      (by simp [skipSpace, isSpace])
  simp only [scanPair, hscan, Option.bind_eq_bind, Option.bind_some, skipSpace_render]
  rw [maxDepth, scanValue_render 78 hvalue]
  rfl

theorem affects_entryLine {entry : String × Scalar} (hkey : isBareKey entry.1 = true)
    (hvalue : entry.2.InRange) : Affects (entryLine entry) fun draft => assign? draft entry := by
  obtain ⟨c, u, heq, hc⟩ := exists_toList_eq_cons_of_isBareKey hkey
  have hstarts : startsLine c = true := by
    simp [startsLine, isSpace_of_isBareKeyChar hc, isBareKeyChar_ne hc (d := '\n') rfl,
      isBareKeyChar_ne hc (d := '\r') rfl]
  have hbracket : c ≠ '[' := isBareKeyChar_ne hc rfl
  have hhash : c ≠ '#' := isBareKeyChar_ne hc rfl
  have hline : entryLine entry = c :: (u ++ ([' ', '=', ' '] ++ entry.2.render)) ++ ['\n'] := by
    simp [entryLine, heq]
  rw [hline]
  refine Affects.line hstarts fun draft rest => ?_
  have hpair := scanPair_entry hkey hvalue rest
  rw [heq, List.cons_append] at hpair
  rw [List.cons_append, List.append_assoc, List.append_assoc, scanLine]
  · simp only [hpair, Option.bind_eq_bind, Option.bind_some]
    exact Option.map_eq_bind.symm
  · intro _ h
    exact hbracket (List.cons.inj h).1
  · intro _ h
    exact hbracket (List.cons.inj h).1
  · intro _ h
    exact hhash (List.cons.inj h).1

theorem exists_join_eq_cons {keys : List String} (hne : keys ≠ [])
    (hkeys : ∀ key ∈ keys, isBareKey key = true) :
    ∃ c u, Text.join ['.'] (keys.map String.toList) = c :: u ∧ isBareKeyChar c = true := by
  obtain ⟨key, keys, rfl⟩ := List.exists_cons_of_ne_nil hne
  rw [List.forall_mem_cons] at hkeys
  obtain ⟨c, u, heq, hc⟩ := exists_toList_eq_cons_of_isBareKey hkeys.1
  cases keys with
  | nil => exact ⟨c, u, heq, hc⟩
  | cons next keys =>
    rw [List.map_cons, Text.join_cons (by simp), heq]
    exact ⟨c, _, rfl, hc⟩

theorem IsPlain.scanKey_header (h : b.IsPlain) {keys : List String} {key : String}
    (heq : b.header = keys ++ [key]) (rest : List Char) :
    scanKey maxDepth (Text.join ['.'] (b.header.map String.toList) ++ ']' :: rest) =
      some ((keys, key), ']' :: rest) := by
  have hlength : keys.length < maxDepth := by simpa [heq, Nat.succ_le_iff] using h.header_length
  have hkeys := h.header_bare
  rw [heq] at hkeys ⊢
  exact scanKey_join keys key hlength hkeys (by simp [isBareKeyChar]) (by simp [skipSpace, isSpace])

theorem IsPlain.affects_headerLine (h : b.IsPlain) : Affects b.headerLine b.open? := by
  obtain ⟨keys, key, hheader⟩ : ∃ keys key, b.header = keys ++ [key] :=
    ⟨_, _, (List.dropLast_concat_getLast h.header_ne_nil).symm⟩
  have hscan := h.scanKey_header hheader
  obtain ⟨c, u, hname, hc⟩ := exists_join_eq_cons h.header_ne_nil h.header_bare
  have hbracket : c ≠ '[' := isBareKeyChar_ne hc rfl
  rw [hname] at hscan
  cases helement : b.isElement with
  | true =>
    have hline : b.headerLine = '[' :: ('[' :: c :: u ++ [']', ']']) ++ ['\n'] := by
      simp [headerLine, helement, hname]
    have hopen : b.open? = fun draft => draft.openElement? keys key := by
      funext draft
      simp [open?, helement, hheader]
    rw [hline, hopen]
    refine Affects.line rfl fun draft rest => ?_
    have hkey := hscan (']' :: '\n' :: rest)
    simp only [List.cons_append, List.append_assoc, List.nil_append] at hkey ⊢
    simp only [scanLine, scanElementHeader, hkey, Option.bind_eq_bind, Option.bind_some]
    exact Option.map_eq_bind.symm
  | false =>
    have hline : b.headerLine = '[' :: (c :: u ++ [']']) ++ ['\n'] := by
      simp [headerLine, helement, hname]
    have hopen : b.open? = fun draft => draft.openTable? keys key := by
      funext draft
      simp [open?, helement, hheader]
    rw [hline, hopen]
    refine Affects.line rfl fun draft rest => ?_
    have hkey := hscan ('\n' :: rest)
    simp only [List.cons_append, List.append_assoc, List.nil_append] at hkey ⊢
    rw [scanLine]
    · simp only [scanHeader, hkey, Option.bind_eq_bind, Option.bind_some]
      exact Option.map_eq_bind.symm
    · intro _ heq
      exact hbracket (List.cons.inj heq).1

/-- Reading the lines of a block does what the block says. -/
theorem IsPlain.affects_render (h : b.IsPlain) : Affects b.render fun draft => b.extend? draft := by
  refine h.affects_headerLine.append (Affects.flatMap fun entry hentry => ?_)
  exact affects_entryLine (h.entries_bare entry hentry) (h.entries_inRange entry hentry)

end Block

/-! ### Whole documents -/

theorem affects_render {blocks : List Block} (h : ∀ b ∈ blocks, b.IsPlain) :
    Affects (render blocks) fun draft => blocks.foldlM Block.extend? draft := by
  unfold render
  induction blocks with
  | nil => exact Affects.nil
  | cons b blocks ih =>
    rw [List.forall_mem_cons] at h
    cases blocks with
    | nil => simpa using h.1.affects_render
    | cons next blocks =>
      have hrest := ih h.2
      have hblock := (h.1.affects_render.append affects_blank_line).append hrest
      rw [List.map_cons, Text.join_cons (by simp)]
      simpa using hblock

theorem dropMark_render (blocks : List Block) : dropMark (render blocks) = render blocks := by
  have hblock : ∀ b : Block, ∃ u, b.render = '[' :: u := by
    intro b
    rw [Block.render, Block.headerLine]
    split <;> exact ⟨_, rfl⟩
  cases blocks with
  | nil => rfl
  | cons b blocks =>
    obtain ⟨u, hu⟩ := hblock b
    cases blocks with
    | nil =>
      rw [render, List.map_singleton, Text.join_singleton, hu]
      rfl
    | cons next blocks =>
      rw [render, List.map_cons, Text.join_cons (by simp), hu]
      rfl

/-- A document written from blocks is read by applying them one after the other. -/
theorem parse?_render {blocks : List Block} (h : ∀ b ∈ blocks, b.IsPlain) :
    parse? (render blocks) =
      (blocks.foldlM Block.extend? Draft.empty).map fun draft =>
        .table (finishMembers draft.members) := by
  obtain ⟨left, -, heq⟩ := affects_render h (render blocks).length Draft.empty [] (by simp)
  rw [List.append_nil] at heq
  rw [parse?, dropMark_render, heq]
  simp only
  cases blocks.foldlM Block.extend? Draft.empty with
  | none => rfl
  | some draft => cases left <;> rfl

end SymbolSearch.Toml
