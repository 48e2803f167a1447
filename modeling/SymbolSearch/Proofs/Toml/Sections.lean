import SymbolSearch.Proofs.Toml.Document

/-!
# Documents in sections

A section is a table with a header of its own. Its members are plain values and, behind them, at most
one array of tables. A document that was written section by section is read as the table of its
sections.

## Main definitions

* `Toml.Section` — what a section holds
* `Toml.Section.blocks` — how a section is written
* `Toml.Section.members` — what a section says
* `Toml.Leads` — the table that the keys of a header lead to
* `Toml.Builds` — what blocks make of a table under construction

## Main results

* `Toml.Leads.foldlM_assign?` — the lines below a header add to the table of the header
* `Toml.Section.builds_blocks` — the blocks of a section add the section
* `Toml.parse?_render_sections` — a document in sections is read as the table of its sections
-/

namespace SymbolSearch.Toml

variable {before inner after last : Members} {name key : String} {header keys : List String}
  {rebuild : Members → Members} {entries : List (String × Scalar)}

/-! ### The last member of a table -/

namespace Members

theorem node?_eq_none (h : name ∉ before.map Prod.fst) : before.node? name = none := by
  rw [node?, List.lookup_eq_none_iff]
  intro member hmember
  rw [bne_iff_ne]
  rintro rfl
  exact h (List.mem_map_of_mem hmember)

theorem node?_concat (h : name ∉ before.map Prod.fst) (node : Node) :
    node? (before ++ [(name, node)]) name = some node := by
  have hbefore : before.lookup name = none := node?_eq_none h
  simp [node?, List.lookup_append, hbefore]

theorem set_eq_concat (h : name ∉ before.map Prod.fst) (node : Node) :
    before.set name node = before ++ [(name, node)] := by
  induction before with
  | nil => rfl
  | cons member before ih =>
    rw [List.map_cons, List.mem_cons, not_or] at h
    rw [set, if_neg (Ne.symm h.1), ih h.2, List.cons_append]

theorem set_concat (h : name ∉ before.map Prod.fst) (node next : Node) :
    set name next (before ++ [(name, node)]) = before ++ [(name, next)] := by
  induction before with
  | nil => exact if_pos rfl
  | cons member before ih =>
    rw [List.map_cons, List.mem_cons, not_or] at h
    rw [List.cons_append, set, if_neg (Ne.symm h.1), ih h.2, List.cons_append]

end Members

theorem changeLast?_concat (change : Members → Option Members) (elements : List Members)
    (last : Members) :
    changeLast? change (elements ++ [last]) = (change last).map fun last => elements ++ [last] := by
  induction elements with
  | nil => rfl
  | cons element elements ih =>
    obtain ⟨next, more, heq⟩ : ∃ next more, elements ++ [last] = next :: more :=
      List.exists_cons_of_ne_nil (by simp)
    rw [List.cons_append, heq, changeLast?, ← heq, ih, Option.map_map]
    rfl

/-! ### The table of a header -/

/-- The keys of a header lead to the table `inner` inside of the table `rebuild inner`: changing what
they lead to changes `inner` and nothing else. -/
def Leads (header : List String) (rebuild : Members → Members) : Prop :=
  ∀ change inner, changeHeader? change header (rebuild inner) = (change inner).map rebuild

theorem Leads.nil : Leads [] id :=
  fun change inner => (congrFun Option.map_id (change inner)).symm

theorem Leads.table (hlead : Leads keys rebuild) (hname : name ∉ before.map Prod.fst)
    (origin : Origin) :
    Leads (name :: keys) fun inner => before ++ [(name, .table origin (rebuild inner))] := by
  intro change inner
  simp only [changeHeader?, Members.node?_concat hname, hlead change inner, Option.map_map,
    Members.set_concat hname]
  rfl

theorem Leads.tables (hlead : Leads keys rebuild) (hname : name ∉ before.map Prod.fst)
    (elements : List Members) :
    Leads (name :: keys) fun inner => before ++ [(name, .tables (elements ++ [rebuild inner]))] := by
  intro change inner
  simp only [changeHeader?, Members.node?_concat hname, changeLast?_concat, hlead change inner,
    Option.map_map, Members.set_concat hname]
  rfl

/-- The members that the lines below a header give. -/
def nodes (entries : List (String × Scalar)) : Members :=
  entries.map fun entry => (entry.1, .value entry.2.value)

theorem Leads.assign? (hlead : Leads header rebuild) {entry : String × Scalar}
    (hkey : entry.1 ∉ inner.map Prod.fst) :
    Block.assign? ⟨rebuild inner, header⟩ entry =
      some ⟨rebuild (inner ++ [(entry.1, .value entry.2.value)]), header⟩ := by
  have hadd : Toml.assign? [] entry.1 entry.2.value inner =
      some (inner ++ [(entry.1, .value entry.2.value)]) := by
    simp only [Toml.assign?, add?, Members.node?_eq_none hkey, Members.set_eq_concat hkey]
  rw [Block.assign?, Draft.assign?, hlead, hadd]
  rfl

/-- The lines below a header add to the table of the header, if their keys are new there. -/
theorem Leads.foldlM_assign? (hlead : Leads header rebuild) (inner : Members)
    (entries : List (String × Scalar)) (hkeys : (inner.map Prod.fst ++ entries.map Prod.fst).Nodup) :
    entries.foldlM Block.assign? ⟨rebuild inner, header⟩ =
      some ⟨rebuild (inner ++ nodes entries), header⟩ := by
  induction entries generalizing inner with
  | nil => simp [nodes]
  | cons entry entries ih =>
    have hkey : entry.1 ∉ inner.map Prod.fst := fun hmem =>
      (List.nodup_append.mp hkeys).2.2 _ hmem _ List.mem_cons_self rfl
    rw [List.foldlM_cons, hlead.assign? hkey, Option.bind_eq_bind, Option.bind_some, ih]
    · simp [nodes]
    · simpa using hkeys

/-! ### Blocks -/

theorem extend?_header_block (hname : name ∉ before.map Prod.fst)
    (hkeys : (entries.map Prod.fst).Nodup) (header : List String) :
    Block.extend? ⟨before, header⟩ ⟨false, [name], entries⟩ =
      some ⟨before ++ [(name, .table .header (nodes entries))], [name]⟩ := by
  have hopen : Block.open? ⟨false, [name], entries⟩ ⟨before, header⟩ =
      some ⟨before ++ [(name, .table .header [])], [name]⟩ := by
    simp only [Block.open?, List.getLast?_singleton, Option.bind_some, Bool.false_eq_true, if_false,
      Draft.openTable?, openTable?, List.dropLast_singleton, changeHeader?, begin?,
      Members.node?_eq_none hname, Members.set_eq_concat hname]
    rfl
  have hlead := Leads.nil.table hname .header
  rw [Block.extend?, hopen, Option.bind_some]
  exact hlead.foldlM_assign? [] entries (by simpa using hkeys)

/-- A table with an array of tables behind its members, if there are any tables. -/
def withElements (key : String) (inner : Members) (elements : List Members) : Members :=
  if elements.isEmpty then inner else inner ++ [(key, .tables elements)]

theorem beginElement?_withElements (hkey : key ∉ inner.map Prod.fst) (elements : List Members) :
    beginElement? key (withElements key inner elements) =
      some (inner ++ [(key, .tables (elements ++ [[]]))]) := by
  cases elements with
  | nil =>
    simp only [withElements, List.isEmpty_nil, if_true, beginElement?, Members.node?_eq_none hkey,
      Members.set_eq_concat hkey, List.nil_append]
  | cons element elements =>
    simp only [withElements, List.isEmpty_cons, Bool.false_eq_true, if_false, beginElement?,
      Members.node?_concat hkey, Members.set_concat hkey]

theorem extend?_element_block (hname : name ∉ before.map Prod.fst) (hkey : key ∉ inner.map Prod.fst)
    (hkeys : (entries.map Prod.fst).Nodup) (elements : List Members) (header : List String) :
    Block.extend? ⟨before ++ [(name, .table .header (withElements key inner elements))], header⟩
        ⟨true, [name, key], entries⟩ =
      some ⟨before ++ [(name, .table .header (withElements key inner (elements ++ [nodes entries])))],
        [name, key]⟩ := by
  have hlead := Leads.nil.table hname .header
  -- The header begins an empty table behind the others, and the lines below it fill that one.
  have hopen : Block.open? ⟨true, [name, key], entries⟩
      ⟨before ++ [(name, .table .header (withElements key inner elements))], header⟩ =
        some ⟨before ++ [(name, .table .header (inner ++ [(key, .tables (elements ++ [[]]))]))],
          [name, key]⟩ := by
    have hbegin := hlead (beginElement? key) (withElements key inner elements)
    rw [beginElement?_withElements hkey, Option.map_some] at hbegin
    change Draft.openElement? [name] key _ = _
    rw [Draft.openElement?, openElement?]
    exact congrArg (Option.bind · fun members => some (⟨members, [name, key]⟩ : Draft)) hbegin
  have hfill := ((Leads.nil.tables hkey elements).table hname .header).foldlM_assign? []
    entries (by simpa using hkeys)
  rw [Block.extend?, hopen, Option.bind_some]
  simpa [withElements] using hfill

/-! ### What blocks build -/

/-- Blocks make one table under construction of another, whatever header was read last. -/
def Builds (blocks : List Block) (before after : Members) : Prop :=
  ∀ header, ∃ header', blocks.foldlM Block.extend? ⟨before, header⟩ = some ⟨after, header'⟩

theorem Builds.nil (members : Members) : Builds [] members members :=
  fun header => ⟨header, rfl⟩

theorem Builds.append {first second : List Block} (h₁ : Builds first before inner)
    (h₂ : Builds second inner after) : Builds (first ++ second) before after := by
  intro header
  obtain ⟨header₁, heq₁⟩ := h₁ header
  obtain ⟨header₂, heq₂⟩ := h₂ header₁
  refine ⟨header₂, ?_⟩
  rw [List.foldlM_append, heq₁, Option.bind_eq_bind, Option.bind_some, heq₂]

theorem Builds.single {b : Block}
    (h : ∀ header, Block.extend? ⟨before, header⟩ b = some ⟨after, b.header⟩) :
    Builds [b] before after := by
  intro header
  refine ⟨b.header, ?_⟩
  rw [List.foldlM_cons, h header]
  rfl

theorem builds_element_blocks (hname : name ∉ before.map Prod.fst)
    (hkey : key ∉ inner.map Prod.fst) {elements : List (List (String × Scalar))}
    (hkeys : ∀ entries ∈ elements, (entries.map Prod.fst).Nodup) (done : List Members) :
    Builds (elements.map fun entries => ⟨true, [name, key], entries⟩)
      (before ++ [(name, .table .header (withElements key inner done))])
      (before ++ [(name, .table .header (withElements key inner (done ++ elements.map nodes)))]) := by
  induction elements generalizing done with
  | nil => simpa using Builds.nil _
  | cons entries elements ih =>
    rw [List.forall_mem_cons] at hkeys
    have hfirst := Builds.single (extend?_element_block hname hkey hkeys.1 done)
    simpa using hfirst.append (ih hkeys.2 (done ++ [nodes entries]))

/-! ### Sections -/

/-- An array of tables that hold plain values. -/
structure TableArray where
  /-- Its key. -/
  key : String
  /-- The entries of its tables. -/
  elements : List (List (String × Scalar))

/-- A table below the top one: plain values and an array of tables behind them. -/
structure Section where
  /-- Its key. -/
  name : String
  /-- Its plain values. -/
  entries : List (String × Scalar)
  /-- Its array of tables. -/
  array : Option TableArray

/-- The keys and values of entries. -/
def entryValues (entries : List (String × Scalar)) : List (String × Value) :=
  entries.map fun entry => (entry.1, entry.2.value)

/-- The keys of entries need no quotes and differ, and the numbers are within range. -/
structure ArePlain (entries : List (String × Scalar)) : Prop where
  bare : ∀ entry ∈ entries, isBareKey entry.1 = true
  inRange : ∀ entry ∈ entries, entry.2.InRange
  nodup : (entries.map Prod.fst).Nodup

theorem ArePlain.of_keys (keys : List String) (heq : entries.map Prod.fst = keys)
    (hbare : keys.all isBareKey = true) (hnodup : keys.Nodup)
    (hrange : ∀ entry ∈ entries, entry.2.InRange) : ArePlain entries where
  bare _ hentry := List.all_eq_true.mp hbare _ (heq ▸ List.mem_map_of_mem hentry)
  inRange := hrange
  nodup := heq ▸ hnodup

theorem ArePlain.concat (h : ArePlain entries) {v : Scalar} (hbare : isBareKey key = true)
    (hnew : key ∉ entries.map Prod.fst) (hrange : v.InRange) : ArePlain (entries ++ [(key, v)]) where
  bare := by
    simp only [List.forall_mem_append, List.forall_mem_singleton]
    exact ⟨h.bare, hbare⟩
  inRange := by
    simp only [List.forall_mem_append, List.forall_mem_singleton]
    exact ⟨h.inRange, hrange⟩
  nodup := by
    rw [List.map_append, List.map_singleton, List.nodup_append]
    refine ⟨h.nodup, List.pairwise_singleton _ _, ?_⟩
    rintro k hk _ hk' rfl
    exact hnew ((List.mem_singleton.mp hk' : k = key) ▸ hk)

theorem ArePlain.filter (h : ArePlain entries) (p : String × Scalar → Bool) :
    ArePlain (entries.filter p) where
  bare entry hentry := h.bare entry (List.mem_filter.mp hentry).1
  inRange entry hentry := h.inRange entry (List.mem_filter.mp hentry).1
  nodup := h.nodup.sublist (List.filter_sublist.map Prod.fst)

namespace TableArray

/-- The line that writes an array without tables. -/
def emptyLine (a : TableArray) : List (String × Scalar) :=
  if a.elements.isEmpty then [(a.key, .noItems)] else []

/-- The value of an array. -/
def value (a : TableArray) : Value :=
  .list (a.elements.map fun entries => .table (entryValues entries))

end TableArray

namespace Section

variable {x : Section}

/-- The blocks of a section: a header with the plain values, and one for each table of the array. An
array without tables is written as a plain value. -/
def blocks (x : Section) : List Block :=
  match x.array with
  | none => [⟨false, [x.name], x.entries⟩]
  | some a => ⟨false, [x.name], x.entries ++ a.emptyLine⟩ ::
      a.elements.map fun entries => ⟨true, [x.name, a.key], entries⟩

/-- The members of a section. -/
def members (x : Section) : List (String × Value) :=
  entryValues x.entries ++ (x.array.map fun a => (a.key, a.value)).toList

/-- The keys of a section can be written and differ, and so can its values. -/
structure IsPlain (x : Section) : Prop where
  name_bare : isBareKey x.name = true
  entries : ArePlain x.entries
  array_bare : ∀ a ∈ x.array, isBareKey a.key = true
  array_new : ∀ a ∈ x.array, a.key ∉ x.entries.map Prod.fst
  elements : ∀ a ∈ x.array, ∀ entries ∈ a.elements, ArePlain entries

theorem IsPlain.header_entries (h : x.IsPlain) {a : TableArray} (ha : a ∈ x.array) :
    ArePlain (x.entries ++ a.emptyLine) := by
  unfold TableArray.emptyLine
  split
  · exact h.entries.concat (h.array_bare a ha) (h.array_new a ha) trivial
  · rw [List.append_nil]
    exact h.entries

theorem IsPlain.header_block (h : x.IsPlain) (hentries : ArePlain entries) :
    (Block.mk false [x.name] entries).IsPlain where
  header_ne_nil := List.cons_ne_nil _ _
  header_length := (by decide : 1 ≤ maxDepth)
  header_bare := List.forall_mem_singleton.mpr h.name_bare
  entries_bare := hentries.bare
  entries_inRange := hentries.inRange

theorem IsPlain.element_block (h : x.IsPlain) {a : TableArray} (ha : a ∈ x.array)
    (hentries : entries ∈ a.elements) : (Block.mk true [x.name, a.key] entries).IsPlain where
  header_ne_nil := List.cons_ne_nil _ _
  header_length := (by decide : 2 ≤ maxDepth)
  header_bare := List.forall_mem_cons.mpr
    ⟨h.name_bare, List.forall_mem_singleton.mpr (h.array_bare a ha)⟩
  entries_bare := (h.elements a ha entries hentries).bare
  entries_inRange := (h.elements a ha entries hentries).inRange

theorem IsPlain.blocks (h : x.IsPlain) : ∀ b ∈ x.blocks, b.IsPlain := by
  unfold Section.blocks
  split
  · exact List.forall_mem_singleton.mpr (h.header_block h.entries)
  · next a ha =>
    rw [List.forall_mem_cons, List.forall_mem_map]
    exact ⟨h.header_block (h.header_entries ha), fun _ hentries => h.element_block ha hentries⟩

/-- The members under construction when a section has been read. -/
def nodes (x : Section) : Members :=
  match x.array with
  | none => Toml.nodes x.entries
  | some a =>
    withElements a.key (Toml.nodes (x.entries ++ a.emptyLine)) (a.elements.map Toml.nodes)

/-- The blocks of a section add the section to a document that has none of its name. -/
theorem builds_blocks (h : x.IsPlain) (hname : x.name ∉ before.map Prod.fst) :
    Builds x.blocks before (before ++ [(x.name, .table .header x.nodes)]) := by
  obtain ⟨name, entries, array⟩ := x
  have hentries := h.entries.nodup
  cases array with
  | none => exact Builds.single (extend?_header_block hname hentries)
  | some a =>
    obtain ⟨key, elements⟩ := a
    have hkey : key ∉ entries.map Prod.fst := h.array_new _ rfl
    -- Without tables the array is a line of the first block, and there is no other block.
    cases elements with
    | nil => exact Builds.single (extend?_header_block hname (h.header_entries rfl).nodup)
    | cons first elements =>
      have hfirst : Builds [⟨false, [name], entries⟩] before _ :=
        Builds.single (extend?_header_block hname hentries)
      have hnodes : key ∉ (Toml.nodes entries).map Prod.fst := by simpa [Toml.nodes] using hkey
      have hrest := builds_element_blocks hname hnodes
        (fun entries hmem => (h.elements _ rfl entries hmem).nodup) []
      simpa [Section.blocks, nodes, TableArray.emptyLine] using hfirst.append hrest

end Section

/-- The blocks of sections add the sections in order. -/
theorem builds_sections {sections : List Section} (before : Members)
    (h : ∀ x ∈ sections, x.IsPlain)
    (hnames : (before.map Prod.fst ++ sections.map Section.name).Nodup) :
    Builds (sections.flatMap Section.blocks) before
      (before ++ sections.map fun x => (x.name, .table .header x.nodes)) := by
  induction sections generalizing before with
  | nil => simpa using Builds.nil before
  | cons x sections ih =>
    rw [List.forall_mem_cons] at h
    have hname : x.name ∉ before.map Prod.fst := fun hmem =>
      (List.nodup_append.mp hnames).2.2 _ hmem _ List.mem_cons_self rfl
    have hrest := ih (before ++ [(x.name, .table .header x.nodes)]) h.2
      (by simpa using hnames)
    simpa using (Section.builds_blocks h.1 hname).append hrest

/-! ### Finished sections -/

theorem finishMembers_eq_map (members : Members) :
    finishMembers members = members.map fun member => (member.1, member.2.finish) := by
  induction members with
  | nil => rfl
  | cons member members ih => rw [finishMembers, ih, List.map_cons]

theorem finishElements_eq_map (elements : List Members) :
    finishElements elements = elements.map fun members => .table (finishMembers members) := by
  induction elements with
  | nil => rfl
  | cons members elements ih => rw [finishElements, ih, List.map_cons]

theorem finishMembers_nodes (entries : List (String × Scalar)) :
    finishMembers (nodes entries) = entryValues entries := by
  simp [finishMembers_eq_map, nodes, entryValues, Node.finish]

theorem Section.finishMembers_nodes (x : Section) : finishMembers x.nodes = x.members := by
  obtain ⟨name, entries, array⟩ := x
  cases array with
  | none => simpa [Section.nodes, members] using Toml.finishMembers_nodes entries
  | some a =>
    obtain ⟨key, elements⟩ := a
    cases elements with
    | nil =>
      change finishMembers (Toml.nodes (entries ++ [(key, .noItems)])) =
        entryValues entries ++ [(key, .list [])]
      rw [Toml.finishMembers_nodes, entryValues, List.map_append]
      rfl
    | cons first elements =>
      change finishMembers (Toml.nodes (entries ++ []) ++
        [(key, .tables ((first :: elements).map Toml.nodes))]) = _
      rw [List.append_nil, finishMembers_eq_map, List.map_append, ← finishMembers_eq_map,
        Toml.finishMembers_nodes]
      simp [members, TableArray.value, Node.finish, finishElements_eq_map, Toml.finishMembers_nodes]

/-- A document in sections is read as the table of its sections. -/
theorem parse?_render_sections {sections : List Section} (h : ∀ x ∈ sections, x.IsPlain)
    (hnames : (sections.map Section.name).Nodup) :
    parse? (render (sections.flatMap Section.blocks)) =
      some (.table (sections.map fun x => (x.name, .table x.members))) := by
  have hplain : ∀ b ∈ sections.flatMap Section.blocks, b.IsPlain := by
    intro b hb
    obtain ⟨x, hx, hb⟩ := List.mem_flatMap.mp hb
    exact (h x hx).blocks b hb
  obtain ⟨header, heq⟩ := builds_sections [] h (by simpa using hnames) []
  rw [parse?_render hplain, Draft.empty, heq, Option.map_some, List.nil_append,
    finishMembers_eq_map, List.map_map]
  simp only [Function.comp_def, Node.finish, Section.finishMembers_nodes]

end SymbolSearch.Toml
