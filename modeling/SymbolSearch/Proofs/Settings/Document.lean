import SymbolSearch.Proofs.Json.Source
import SymbolSearch.Proofs.Toml.Removal
import SymbolSearch.Settings.Store

/-!
# Settings in a document

Settings are written as a document in three sections and read back from it. Whatever sections and
fields are removed from the document, the settings that are read have the standard values there and
the written ones elsewhere.

## Main definitions

* `Settings.sections` — the sections of settings
* `Settings.resetting` — settings with standard values for some of them

## Main results

* `Settings.blocks?_eq_some_iff` — settings are written section by section
* `Settings.parse?_render_without` — reading settings some of which were removed
-/

namespace SymbolSearch

open Source Toml

variable {removed : List SectionKey}

/-! ### Fields of a table that may be missing -/

/-- The value of a field, or its standard value if the field is removed. -/
def orStandard {β : Type} (removed : List SectionKey) (path : List String) (standard value : β) : β :=
  if isRemoved removed path then standard else value

/-- The fields of a removed section have their standard values. -/
theorem orStandard_field {β : Type} {name key : String} {standard value : β}
    (h : isRemoved removed [name] = true) :
    orStandard removed [name, key] standard value = standard :=
  if_pos (isRemoved_append h [key])

theorem orStandard_section {β : Type} {name : String} {standard value : β}
    (h : isRemoved removed [name] = true → value = standard) :
    orStandard removed [name] standard value = value := by
  unfold orStandard
  split
  · next hremoved => exact (h hremoved).symm
  · rfl

theorem slots?_keep {x : Section} (names : List String) (hkeys : x.members.map Prod.fst = names)
    (hnames : names.Nodup) (removed : List SectionKey) :
    slots? names (Value.table (x.keep removed).members) =
      some (names.map fun name =>
        if !isRemoved removed [x.name, name] then x.members.lookup name else none) := by
  rw [Section.members_keep]
  change tableSlots? names _ = _
  exact tableSlots?_filter hkeys hnames fun name => !isRemoved removed [x.name, name]

theorem orDefault_of_isRemoved {β : Type} {read : Value → Option β} {v : Value} {b : β}
    (hread : read v = some b) (path : List String) (standard : β) :
    orDefault standard read (if !isRemoved removed path then some v else none) =
      some (orStandard removed path standard b) := by
  unfold orStandard
  cases isRemoved removed path with
  | true => rfl
  | false => exact hread

theorem text?_text (s : String) : text? (Value.text s) = some s := rfl

theorem bool?_bool (b : Bool) : bool? (Value.bool b) = some b := rfl

/-! ### The index section -/

namespace IndexSettings

/-- The index section. -/
def toSection (s : IndexSettings) : Section where
  name := "index"
  entries := [("file_name", .text s.fileName), ("max_parent_search", .nat s.maxParentSearch.toNat)]
  array := some
    { key := "declaration_extensions"
      elements := s.extensions.map fun e =>
        [("declaration", .text e.declaration), ("implementation", .text e.implementation)] }

theorem indexBlocks_eq (s : IndexSettings) : Settings.indexBlocks s = s.toSection.blocks := by
  simp only [Settings.indexBlocks, toSection, Section.blocks, TableArray.emptyLine,
    List.isEmpty_map, List.map_map]
  rfl

theorem members_toSection (s : IndexSettings) :
    s.toSection.members =
      [("file_name", .text s.fileName), ("max_parent_search", .int s.maxParentSearch.toNat),
       ("declaration_extensions", .list (s.extensions.map fun e => .table
         [("declaration", .text e.declaration), ("implementation", .text e.implementation)]))] := by
  simp [toSection, Section.members, TableArray.value, entryValues, Scalar.value]

theorem isPlain_toSection {s : IndexSettings} (h : s.maxParentSearch.toNat < 0x8000000000000000) :
    s.toSection.IsPlain where
  name_bare := (by decide : isBareKey "index" = true)
  entries := .of_keys ["file_name", "max_parent_search"] rfl (by decide) (by decide)
    (by simpa [toSection, Scalar.InRange] using h)
  array_bare := by
    rintro a ⟨⟩
    exact (by decide : isBareKey "declaration_extensions" = true)
  array_new := by
    rintro a ⟨⟩
    exact (by decide : "declaration_extensions" ∉ ["file_name", "max_parent_search"])
  elements := by
    rintro a ⟨⟩
    rw [List.forall_mem_map]
    exact fun e _ => .of_keys ["declaration", "implementation"] rfl (by decide) (by decide)
      (by simp [Scalar.InRange])

/-- Settings of the index file with the standard values for what is removed. -/
def resetting (removed : List SectionKey) (s : IndexSettings) : IndexSettings where
  fileName := orStandard removed ["index", "file_name"] standard.fileName s.fileName
  maxParentSearch :=
    orStandard removed ["index", "max_parent_search"] standard.maxParentSearch s.maxParentSearch
  extensions :=
    orStandard removed ["index", "declaration_extensions"] standard.extensions s.extensions

theorem list?_extensions (extensions : List Extension) :
    list? Extension.ofSource? (Value.list (extensions.map fun e => .table
        [("declaration", .text e.declaration), ("implementation", .text e.implementation)])) =
      some extensions := by
  refine list?_of_forall₂ rfl ?_
  rw [List.forall₂_map_right_iff, List.forall₂_same]
  exact fun _ _ => rfl

theorem uint64?_toNat (n : UInt64) : uint64? (Value.int n.toNat) = some n := by
  have hrange : 0 ≤ (n.toNat : Int) ∧ (n.toNat : Int) < 0x10000000000000000 := by
    have := n.toNat_lt
    omega
  have hint : int? (Value.int n.toNat) = some (n.toNat : Int) := rfl
  rw [uint64?, hint, Option.bind_eq_bind, Option.bind_some, if_pos hrange, Int.toNat_natCast,
    UInt64.ofNat_toNat]

theorem resetting_of_isRemoved (h : isRemoved removed ["index"] = true) (s : IndexSettings) :
    s.resetting removed = standard := by
  simp only [resetting, orStandard_field h]

theorem ofSource?_keep (removed : List SectionKey) (s : IndexSettings) :
    ofSource? (Value.table (s.toSection.keep removed).members) = some (s.resetting removed) := by
  have hslots : slots? fieldNames (Value.table (s.toSection.keep removed).members) = some
      [if !isRemoved removed ["index", "file_name"] then some (.text s.fileName) else none,
       if !isRemoved removed ["index", "max_parent_search"] then
         some (.int s.maxParentSearch.toNat) else none,
       if !isRemoved removed ["index", "declaration_extensions"] then
         some (.list (s.extensions.map fun e => .table
           [("declaration", .text e.declaration), ("implementation", .text e.implementation)]))
         else none] := by
    rw [slots?_keep fieldNames rfl (by decide), members_toSection]
    rfl
  rw [ofSource?, hslots]
  simp only [Option.bind_eq_bind, Option.bind_some]
  rw [orDefault_of_isRemoved (text?_text _), orDefault_of_isRemoved (uint64?_toNat _),
    orDefault_of_isRemoved (list?_extensions _)]
  rfl

end IndexSettings

/-! ### The output section -/

namespace OutputSettings

/-- The output section. -/
def toSection (s : OutputSettings) : Section := ⟨"output", [("format", .text s.format.name)], none⟩

theorem isPlain_toSection (s : OutputSettings) : s.toSection.IsPlain where
  name_bare := (by decide : isBareKey "output" = true)
  entries := .of_keys ["format"] rfl (by decide) (by decide) (by simp [toSection, Scalar.InRange])
  array_bare := nofun
  array_new := nofun
  elements := nofun

/-- Settings of reports with the standard values for what is removed. -/
def resetting (removed : List SectionKey) (s : OutputSettings) : OutputSettings :=
  ⟨orStandard removed ["output", "format"] standard.format s.format⟩

theorem ofSource?_name (f : Format) : Format.ofSource? (Value.text f.name) = some f :=
  Format.ofName?_name f

theorem resetting_of_isRemoved (h : isRemoved removed ["output"] = true) (s : OutputSettings) :
    s.resetting removed = standard := by
  simp only [resetting, orStandard_field h]

theorem ofSource?_keep (removed : List SectionKey) (s : OutputSettings) :
    ofSource? (Value.table (s.toSection.keep removed).members) = some (s.resetting removed) := by
  have hslots : slots? fieldNames (Value.table (s.toSection.keep removed).members) = some
      [if !isRemoved removed ["output", "format"] then some (.text s.format.name) else none] :=
    slots?_keep fieldNames rfl (by decide) removed
  rw [ofSource?, hslots]
  simp only [Option.bind_eq_bind, Option.bind_some]
  rw [orDefault_of_isRemoved (ofSource?_name _)]
  rfl

end OutputSettings

/-! ### The logging section -/

namespace LoggingSettings

/-- The logging section. -/
def toSection (s : LoggingSettings) : Section where
  name := "logging"
  entries :=
    [("enabled", .bool s.enabled), ("stderr", .bool s.stderr), ("level", .text s.level),
     ("directory", .text s.directory), ("rotation", .text s.rotation),
     ("file_prefix", .text s.filePrefix)]
  array := none

theorem isPlain_toSection (s : LoggingSettings) : s.toSection.IsPlain where
  name_bare := (by decide : isBareKey "logging" = true)
  entries := .of_keys fieldNames rfl (by decide) (by decide) (by simp [toSection, Scalar.InRange])
  array_bare := nofun
  array_new := nofun
  elements := nofun

/-- Settings of logging with the standard values for what is removed. -/
def resetting (removed : List SectionKey) (s : LoggingSettings) : LoggingSettings where
  enabled := orStandard removed ["logging", "enabled"] standard.enabled s.enabled
  stderr := orStandard removed ["logging", "stderr"] standard.stderr s.stderr
  level := orStandard removed ["logging", "level"] standard.level s.level
  directory := orStandard removed ["logging", "directory"] standard.directory s.directory
  rotation := orStandard removed ["logging", "rotation"] standard.rotation s.rotation
  filePrefix := orStandard removed ["logging", "file_prefix"] standard.filePrefix s.filePrefix

theorem resetting_of_isRemoved (h : isRemoved removed ["logging"] = true) (s : LoggingSettings) :
    s.resetting removed = standard := by
  simp only [resetting, orStandard_field h]

theorem ofSource?_keep (removed : List SectionKey) (s : LoggingSettings) :
    ofSource? (Value.table (s.toSection.keep removed).members) = some (s.resetting removed) := by
  have hslots : slots? fieldNames (Value.table (s.toSection.keep removed).members) = some
      [if !isRemoved removed ["logging", "enabled"] then some (.bool s.enabled) else none,
       if !isRemoved removed ["logging", "stderr"] then some (.bool s.stderr) else none,
       if !isRemoved removed ["logging", "level"] then some (.text s.level) else none,
       if !isRemoved removed ["logging", "directory"] then some (.text s.directory) else none,
       if !isRemoved removed ["logging", "rotation"] then some (.text s.rotation) else none,
       if !isRemoved removed ["logging", "file_prefix"] then some (.text s.filePrefix) else none] :=
    slots?_keep fieldNames rfl (by decide) removed
  rw [ofSource?, hslots]
  simp only [Option.bind_eq_bind, Option.bind_some]
  simp only [orDefault_of_isRemoved (bool?_bool _), orDefault_of_isRemoved (text?_text _)]
  rfl

end LoggingSettings

/-! ### All settings -/

namespace Settings

/-- The sections of settings. -/
def sections (s : Settings) : List Section :=
  [s.index.toSection, s.output.toSection, s.logging.toSection]

/-- Settings are written section by section, unless a number is too great. -/
theorem blocks?_eq_some_iff {s : Settings} {blocks : List Block} :
    s.blocks? = some blocks ↔
      s.index.maxParentSearch.toNat < 0x8000000000000000 ∧
        blocks = s.sections.flatMap Section.blocks := by
  have hblocks : indexBlocks s.index ++ [outputBlock s.output, loggingBlock s.logging] =
      s.sections.flatMap Section.blocks := by
    rw [IndexSettings.indexBlocks_eq]
    rfl
  rw [blocks?, hblocks]
  split
  · next hrange =>
    rw [Option.some_inj]
    exact ⟨fun heq => ⟨hrange, heq.symm⟩, fun h => h.2.symm⟩
  · next hrange => exact iff_of_false nofun fun h => hrange h.1

theorem blocks?_eq_none_iff {s : Settings} :
    s.blocks? = none ↔ 0x8000000000000000 ≤ s.index.maxParentSearch.toNat := by
  rw [blocks?]
  split
  · next hrange => exact iff_of_false nofun (Nat.not_le.mpr hrange)
  · next hrange => exact iff_of_true rfl (Nat.not_lt.mp hrange)

/-- Settings with the standard values for the sections and fields that are removed. -/
def resetting (removed : List SectionKey) (s : Settings) : Settings where
  index := s.index.resetting removed
  output := s.output.resetting removed
  logging := s.logging.resetting removed

theorem resetting_nil (s : Settings) : s.resetting [] = s := rfl

theorem isPlain_sections {s : Settings} (h : s.index.maxParentSearch.toNat < 0x8000000000000000) :
    ∀ x ∈ s.sections, x.IsPlain := by
  rw [sections, List.forall_mem_cons, List.forall_mem_cons, List.forall_mem_singleton]
  exact ⟨IndexSettings.isPlain_toSection h, OutputSettings.isPlain_toSection s.output,
    LoggingSettings.isPlain_toSection s.logging⟩

/-- What is left of the document of settings. -/
def remaining (removed : List SectionKey) (s : Settings) : Value :=
  .table ((s.sections.map fun x => (x.name, .table (x.keep removed).members)).filter
    fun member => !isRemoved removed [member.1])

theorem ofSource?_remaining (removed : List SectionKey) (s : Settings) :
    ofSource? (s.remaining removed) = some (s.resetting removed) := by
  have hslots : slots? sectionNames (s.remaining removed) = some
      [if !isRemoved removed ["index"] then some (.table (s.index.toSection.keep removed).members)
        else none,
       if !isRemoved removed ["output"] then some (.table (s.output.toSection.keep removed).members)
        else none,
       if !isRemoved removed ["logging"] then
         some (.table (s.logging.toSection.keep removed).members) else none] := by
    have hkeys : (s.sections.map fun x => (x.name, Value.table (x.keep removed).members)).map
        Prod.fst = sectionNames := rfl
    have hnames : sectionNames.Nodup := by decide
    exact tableSlots?_filter hkeys hnames fun name => !isRemoved removed [name]
  -- A section that is removed has the standard values in all its fields.
  have hindex : orStandard removed ["index"] standard.index (s.index.resetting removed) =
      s.index.resetting removed := orStandard_section fun h => s.index.resetting_of_isRemoved h
  have houtput : orStandard removed ["output"] standard.output (s.output.resetting removed) =
      s.output.resetting removed := orStandard_section fun h => s.output.resetting_of_isRemoved h
  have hlogging : orStandard removed ["logging"] standard.logging (s.logging.resetting removed) =
      s.logging.resetting removed := orStandard_section fun h => s.logging.resetting_of_isRemoved h
  rw [ofSource?, hslots]
  simp only [Option.bind_eq_bind, Option.bind_some]
  rw [orDefault_of_isRemoved (s.index.ofSource?_keep removed),
    orDefault_of_isRemoved (s.output.ofSource?_keep removed),
    orDefault_of_isRemoved (s.logging.ofSource?_keep removed), hindex, houtput, hlogging]
  rfl

/-- Reading a document that settings were written to gives the settings, with the standard values for
what was removed from it. -/
theorem parse?_render_without {s : Settings} {blocks : List Block} (h : s.blocks? = some blocks)
    (removed : List SectionKey) :
    parse? (render (without removed blocks)) = some (s.resetting removed) := by
  obtain ⟨hrange, rfl⟩ := blocks?_eq_some_iff.mp h
  have hnames : sectionNames.Nodup := by decide
  have hparse := Toml.parse?_render_without (isPlain_sections hrange) hnames removed
  rw [parse?, hparse]
  exact ofSource?_remaining removed s

end Settings

end SymbolSearch
