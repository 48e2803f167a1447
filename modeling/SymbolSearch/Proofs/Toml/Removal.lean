import SymbolSearch.Proofs.Toml.Sections

/-!
# Removing keys from a document

Keys can be taken out of a document in sections: a whole section with all that is below its headers,
or a member of a section with its line or, if it is an array of tables, with its headers. What is left
is again a document in sections, that of the members that are left.

## Main definitions

* `Toml.SectionKey` — a section, or a member of a section
* `Toml.isRemoved` — whether removing keys takes away what is at a path
* `Toml.without` — a document without some of its keys
* `Toml.Section.keep` — a section without some of its members

## Main results

* `Toml.without_flatMap_blocks` — a document in sections without some of its keys
* `Toml.parse?_render_without` — what such a document says
-/

namespace SymbolSearch.Toml

/-- A key that can be removed from a document in sections. -/
inductive SectionKey where
  /-- A whole section. -/
  | whole (name : String)
  /-- A member of a section. -/
  | member (name key : String)
  deriving DecidableEq, Repr

/-- The path of a key from the top of the document. -/
def SectionKey.path : SectionKey → List String
  | whole name => [name]
  | member name key => [name, key]

/-- Whether removing keys takes away what is at a path: a key above the path or at its end is
removed. -/
def isRemoved (removed : List SectionKey) (path : List String) : Bool :=
  removed.any fun key => key.path.isPrefixOf path

/-- The blocks of a document without some of its keys. -/
def without (removed : List SectionKey) (blocks : List Block) : List Block :=
  (blocks.filter fun b => !isRemoved removed b.header).map fun b =>
    { b with entries := b.entries.filter fun entry => !isRemoved removed (b.header ++ [entry.1]) }

variable {removed : List SectionKey} {path : List String} {x : Section}

/-! ### Paths -/

theorem isRemoved_append (h : isRemoved removed path = true) (more : List String) :
    isRemoved removed (path ++ more) = true := by
  simp only [isRemoved, List.any_eq_true, List.isPrefixOf_iff_prefix] at h ⊢
  obtain ⟨key, hkey, hpath⟩ := h
  exact ⟨key, hkey, hpath.trans (List.prefix_append path more)⟩

/-- No key reaches below the members of a section. -/
theorem isRemoved_below_member (removed : List SectionKey) (name key below : String) :
    isRemoved removed [name, key, below] = isRemoved removed [name, key] := by
  have hpath : ∀ k : SectionKey,
      k.path.isPrefixOf [name, key, below] = k.path.isPrefixOf [name, key] := by
    intro k
    cases k <;> simp [SectionKey.path, List.isPrefixOf]
  simp only [isRemoved, hpath]

theorem without_append (removed : List SectionKey) (first second : List Block) :
    without removed (first ++ second) = without removed first ++ without removed second := by
  simp [without]

theorem without_nil (blocks : List Block) : without [] blocks = blocks := by
  have hkeep : ∀ path, (!isRemoved [] path) = true := fun _ => rfl
  simp [without, hkeep, List.filter_eq_self.mpr]

/-! ### Sections -/

namespace Section

/-- A section without some of its members. -/
def keep (removed : List SectionKey) (x : Section) : Section where
  name := x.name
  entries := x.entries.filter fun entry => !isRemoved removed [x.name, entry.1]
  array := x.array.filter fun a => !isRemoved removed [x.name, a.key]

theorem IsPlain.keep (h : x.IsPlain) : (x.keep removed).IsPlain where
  name_bare := h.name_bare
  entries := h.entries.filter _
  array_bare a ha := h.array_bare a (Option.mem_filter_iff.mp ha).1
  array_new a ha hmem := by
    have hentries : (x.keep removed).entries.Sublist x.entries := List.filter_sublist
    exact h.array_new a (Option.mem_filter_iff.mp ha).1 ((hentries.map Prod.fst).subset hmem)
  elements a ha := h.elements a (Option.mem_filter_iff.mp ha).1

theorem members_keep (removed : List SectionKey) (x : Section) :
    (x.keep removed).members =
      x.members.filter fun member => !isRemoved removed [x.name, member.1] := by
  obtain ⟨name, entries, array⟩ := x
  simp only [members, Section.keep, entryValues, List.filter_append, List.filter_map]
  congr 1
  cases array with
  | none => rfl
  | some a => cases h : isRemoved removed [name, a.key] <;> simp [Option.filter, h]

theorem header_of_mem_blocks {b : Block} (hb : b ∈ x.blocks) :
    ∃ more, b.header = [x.name] ++ more := by
  unfold blocks at hb
  split at hb
  · rw [List.mem_singleton.mp hb]
    exact ⟨[], rfl⟩
  · obtain rfl | hb := List.mem_cons.mp hb
    · exact ⟨[], rfl⟩
    · obtain ⟨entries, -, rfl⟩ := List.mem_map.mp hb
      exact ⟨_, rfl⟩

theorem without_blocks_of_isRemoved (h : isRemoved removed [x.name] = true) :
    without removed x.blocks = [] := by
  rw [without, List.map_eq_nil_iff, List.filter_eq_nil_iff]
  intro b hb
  obtain ⟨more, heq⟩ := header_of_mem_blocks hb
  have hremoved := isRemoved_append h more
  rw [heq, hremoved]
  exact Bool.false_ne_true

theorem filter_emptyLine (removed : List SectionKey) (name : String) (a : TableArray) :
    a.emptyLine.filter (fun entry => !isRemoved removed [name, entry.1]) =
      if isRemoved removed [name, a.key] then [] else a.emptyLine := by
  unfold TableArray.emptyLine
  cases h : isRemoved removed [name, a.key] <;> split <;> simp [h]

theorem without_element_blocks (removed : List SectionKey) (name key : String)
    (elements : List (List (String × Scalar))) :
    without removed (elements.map fun entries => ⟨true, [name, key], entries⟩) =
      if isRemoved removed [name, key] then []
      else elements.map fun entries => ⟨true, [name, key], entries⟩ := by
  cases h : isRemoved removed [name, key] with
  | true => simp [without, h]
  | false =>
    have hentries : ∀ entries : List (String × Scalar),
        entries.filter (fun entry => !isRemoved removed [name, key, entry.1]) = entries := by
      intro entries
      rw [List.filter_eq_self]
      intro entry _
      rw [isRemoved_below_member, h]
      rfl
    have hkept : (elements.map fun entries => Block.mk true [name, key] entries).filter
        (fun b => !isRemoved removed b.header) =
          elements.map fun entries => ⟨true, [name, key], entries⟩ := by
      rw [List.filter_eq_self, List.forall_mem_map]
      intro entries _
      rw [h]
      rfl
    simp [without, hkept, hentries]

/-- What is left of the blocks of a section are the blocks of what is left of it. -/
theorem without_blocks (h : isRemoved removed [x.name] = false) :
    without removed x.blocks = (x.keep removed).blocks := by
  obtain ⟨name, entries, array⟩ := x
  have hheader : ∀ entries, without removed [⟨false, [name], entries⟩] =
      [⟨false, [name], entries.filter fun entry => !isRemoved removed [name, entry.1]⟩] := by
    intro entries
    simp [without, h]
  cases array with
  | none => exact hheader entries
  | some a =>
    have hblocks : without removed (Section.blocks ⟨name, entries, some a⟩) = _ :=
      without_append removed [⟨false, [name], entries ++ a.emptyLine⟩] _
    -- The array goes with its line and its blocks or stays with all of them.
    rw [hblocks, hheader, without_element_blocks, List.filter_append, filter_emptyLine]
    cases ha : isRemoved removed [name, a.key] <;> simp [blocks, keep, Option.filter_some, ha]

end Section

/-- The sections of a document without some of its keys. -/
def keepSections (removed : List SectionKey) (sections : List Section) : List Section :=
  (sections.filter fun x => !isRemoved removed [x.name]).map (Section.keep removed)

theorem without_flatMap_blocks (removed : List SectionKey) (sections : List Section) :
    without removed (sections.flatMap Section.blocks) =
      (keepSections removed sections).flatMap Section.blocks := by
  induction sections with
  | nil => rfl
  | cons x sections ih =>
    rw [List.flatMap_cons, without_append, ih]
    cases h : isRemoved removed [x.name] with
    | true =>
      simp [Section.without_blocks_of_isRemoved h, keepSections, h]
    | false =>
      simp [Section.without_blocks h, keepSections, h]

/-- A document without some of its keys says what is left of the document. -/
theorem parse?_render_without {sections : List Section} (h : ∀ x ∈ sections, x.IsPlain)
    (hnames : (sections.map Section.name).Nodup) (removed : List SectionKey) :
    parse? (render (without removed (sections.flatMap Section.blocks))) =
      some (.table ((sections.map fun x => (x.name, .table (x.keep removed).members)).filter
        fun member => !isRemoved removed [member.1])) := by
  rw [without_flatMap_blocks, parse?_render_sections]
  · rw [keepSections, List.map_map, List.filter_map]
    rfl
  · rw [keepSections, List.forall_mem_map]
    exact fun x hx => (h x (List.mem_filter.mp hx).1).keep
  · rw [keepSections, List.map_map]
    exact hnames.sublist (List.filter_sublist.map Section.name)

end SymbolSearch.Toml
