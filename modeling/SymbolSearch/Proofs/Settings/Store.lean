import SymbolSearch.Proofs.Files.Inside
import SymbolSearch.Proofs.Settings.Document
import SymbolSearch.Proofs.Text.Encoding

/-!
# Saved settings

Settings that were saved are loaded again as they were. Where sections or fields have been removed
from the file since, the standard values are loaded. Settings that cannot be written leave all files
as they were, but directories may have been made for them by then. Where the directory is given by
two dots behind something missing, settings can come to light that way which were not found before.

## Main definitions

* `Settings.Uncovers` — making the directories brings settings to light

## Main results

* `Settings.load_of_find?` — loading looks at one file only
* `Settings.save_eq_ok` — what a successful attempt to save has done
* `Settings.save_eq_unwritable_iff` — which settings cannot be written
* `Settings.load_makeDirectories_eq_iff` — when making directories keeps the settings that are loaded
* `Settings.load_saved` — settings survive saving
* `Settings.not_forall_load_of_unwritable` — a failed attempt to save can change what is loaded
-/

namespace SymbolSearch.Settings

open Files Toml

variable {t t' : Tree} {cwd : Location} {root : String} {s : Settings}

/-! ### The file of the settings -/

theorem isName_directory : IsName ".scip-finder".toList where
  isComponent := by decide
  ne_dots := by decide
  not_tooLong := by decide

theorem isName_file : IsName "config.toml".toList where
  isComponent := by decide
  ne_dots := by decide
  not_tooLong := by decide

theorem not_mem_directory : '/' ∉ ".scip-finder".toList := by decide

theorem not_mem_file : '/' ∉ "config.toml".toList := by decide

theorem pieces_fileOf (root : String) :
    pieces (fileOf root) = pieces (directoryOf root) ++ ["config.toml".toList] := by
  obtain ⟨above, hfile, rfl | heq⟩ := pieces_join (directoryOf root) not_mem_file
  · exact hfile
  · -- The path of the directory does not end with a slash.
    obtain ⟨before, hdirectory, -⟩ := pieces_join root not_mem_directory
    have hlast := (List.append_inj' (heq.symm.trans hdirectory) rfl).2
    exact absurd (List.cons.inj hlast).1.symm isName_directory.ne_nil

theorem origin_fileOf (cwd : Location) (root : String) :
    Tree.origin cwd (fileOf root) = Tree.origin cwd (directoryOf root) :=
  origin_join cwd (directoryOf root) (isAbsolute_of_not_mem not_mem_file)

/-! ### Loading -/

theorem readText?_eq (t : Tree) (cwd : Location) (path : String) :
    readText? t cwd path =
      match t.find? cwd path with
      | some (.file bytes) => (String.fromUTF8? bytes.toByteArray).map String.toList
      | _ => none := by
  unfold readText? Tree.read Tree.find?
  cases t.resolve cwd path with
  | error fault => rfl
  | ok place =>
    simp only [bind, Except.bind]
    cases t.node? place with
    | none => rfl
    | some node => cases node <;> rfl

/-- Loading looks at nothing but what the path of the file leads to. -/
theorem load_of_find? (h : t'.find? cwd (fileOf root) = t.find? cwd (fileOf root)) :
    load t' cwd root = load t cwd root := by
  have hread : readText? t' cwd (fileOf root) = readText? t cwd (fileOf root) := by
    rw [readText?_eq, readText?_eq, h]
  simp only [load, Tree.contains, h, hread]
  rfl

theorem readText?_of_find? {path : String} {text : List Char}
    (h : t.find? cwd path = some (.file (Text.utf8 text))) : readText? t cwd path = some text := by
  have hdecode : String.fromUTF8? (Text.utf8 text).toByteArray = some (String.ofList text) :=
    Text.fromUTF8?_eq_some_iff.mpr (by rw [String.toList_ofList])
  simp only [readText?_eq, h, hdecode, Option.map_some, String.toList_ofList]

theorem load_of_parse? {text : List Char}
    (h : t.find? cwd (fileOf root) = some (.file (Text.utf8 text))) (hparse : parse? text = some s) :
    load t cwd root = .ok s := by
  have hcontains : t.contains cwd (fileOf root) = true := by
    rw [Tree.contains, h]
    rfl
  simp only [load, hcontains, if_true, readText?_of_find? h, hparse]

/-! ### Saving -/

/-- An attempt to save ends in one of four ways. Up to the last of them the directory is all that may
have been made. -/
theorem attemptSave_cases {made : Attempt Files.Fault}
    (hmade : t.makeDirectories cwd (directoryOf root) = made) (s : Settings) :
    (made.fault ≠ none ∧
      attemptSave t cwd root s = ⟨made.tree, some (.noDirectory (directoryOf root))⟩) ∨
    (made.fault = none ∧ s.blocks? = none ∧
      attemptSave t cwd root s = ⟨made.tree, some .unwritable⟩) ∨
    (made.fault = none ∧ ∃ blocks, s.blocks? = some blocks ∧
      (attemptSave t cwd root s = ⟨made.tree, some (.notWritten (fileOf root))⟩ ∨
        ∃ t', made.tree.write cwd (fileOf root) (Text.utf8 (render blocks)) = .ok t' ∧
          attemptSave t cwd root s = ⟨t', none⟩)) := by
  obtain ⟨tree, fault⟩ := made
  unfold attemptSave
  rw [hmade]
  cases fault with
  | some fault => exact .inl ⟨nofun, rfl⟩
  | none =>
    cases hblocks : s.blocks? with
    | none => exact .inr (.inl ⟨rfl, rfl, rfl⟩)
    | some blocks =>
      refine .inr (.inr ⟨rfl, blocks, rfl, ?_⟩)
      simp only [Text.toUTF8_ofList]
      cases hwrite : tree.write cwd (fileOf root) (Text.utf8 (render blocks)) with
      | error fault => exact .inl rfl
      | ok t' => exact .inr ⟨t', rfl, rfl⟩

theorem save_eq_ok (h : save t cwd root s = .ok t') :
    ∃ blocks, s.blocks? = some blocks ∧
      t'.find? cwd (fileOf root) = some (.file (Text.utf8 (render blocks))) := by
  obtain ⟨-, heq⟩ | ⟨-, -, heq⟩ | ⟨-, blocks, hblocks, heq | ⟨t₁, hwrite, heq⟩⟩ :=
    attemptSave_cases (rfl : t.makeDirectories cwd (directoryOf root) = _) s <;>
    rw [save, heq] at h
  · cases h
  · cases h
  · cases h
  · obtain rfl := Except.ok.inj h
    exact ⟨blocks, hblocks, Tree.find?_write (pieces_fileOf root) isName_file hwrite⟩

theorem save_eq_error_iff {fault : Fault} :
    save t cwd root s = .error fault ↔ (attemptSave t cwd root s).fault = some fault := by
  unfold save Attempt.toExcept
  cases (attemptSave t cwd root s).fault <;> simp

/-- Settings whose number is too great are found not to be writable once the directory has been
made. -/
theorem save_eq_unwritable_iff :
    save t cwd root s = .error .unwritable ↔
      (t.makeDirectories cwd (directoryOf root)).fault = none ∧
        0x8000000000000000 ≤ s.index.maxParentSearch.toNat := by
  have hfits : ∀ blocks, s.blocks? = some blocks →
      ¬ 0x8000000000000000 ≤ s.index.maxParentSearch.toNat := by
    intro blocks hblocks hgreat
    cases hblocks.symm.trans (blocks?_eq_none_iff.mpr hgreat)
  rw [save_eq_error_iff]
  obtain ⟨hfault, heq⟩ | ⟨hfault, hblocks, heq⟩ |
      ⟨-, blocks, hblocks, heq | ⟨t₁, -, heq⟩⟩ :=
    attemptSave_cases (rfl : t.makeDirectories cwd (directoryOf root) = _) s <;>
    rw [heq]
  · exact iff_of_false nofun fun h => hfault h.1
  · exact iff_of_true rfl ⟨hfault, blocks?_eq_none_iff.mp hblocks⟩
  · exact iff_of_false nofun fun h => hfits blocks hblocks h.2
  · exact iff_of_false nofun fun h => hfits blocks hblocks h.2

theorem attemptSave_tree_of_unwritable (h : save t cwd root s = .error .unwritable) :
    (attemptSave t cwd root s).tree = (t.makeDirectories cwd (directoryOf root)).tree := by
  rw [save_eq_error_iff] at h
  obtain ⟨-, heq⟩ | ⟨-, -, heq⟩ | ⟨-, blocks, -, heq | ⟨t₁, -, heq⟩⟩ :=
    attemptSave_cases (rfl : t.makeDirectories cwd (directoryOf root) = _) s <;>
    rw [heq] at h ⊢
  cases h

/-! ### Settings that come to light -/

/-- The path of the settings leads nowhere, but to something once the directories above it have been
made. -/
def Uncovers (t : Tree) (cwd : Location) (root : String) : Prop :=
  t.contains cwd (fileOf root) = false ∧
    (t.makeDirectories cwd (directoryOf root)).tree.contains cwd (fileOf root) = true

theorem load_of_not_contains (h : t.contains cwd (fileOf root) = false) :
    load t cwd root = .ok standard := by
  rw [load, h]
  rfl

/-- Making the directories changes the settings only by bringing others than the standard ones to
light. -/
theorem load_makeDirectories_eq_iff (t : Tree) (cwd : Location) (root : String) :
    load (t.makeDirectories cwd (directoryOf root)).tree cwd root = load t cwd root ↔
      ¬ Uncovers t cwd root ∨
        load (t.makeDirectories cwd (directoryOf root)).tree cwd root = .ok standard := by
  have hgrows := t.makeDirectories_grows cwd (directoryOf root)
  cases hcontains : t.contains cwd (fileOf root) with
  | true =>
    obtain ⟨node, hnode⟩ := Option.isSome_iff_exists.mp hcontains
    refine iff_of_true (load_of_find? ((hgrows.find? hnode).trans hnode.symm)) (.inl ?_)
    exact fun h => Bool.false_ne_true (h.1.symm.trans hcontains)
  | false =>
    rw [load_of_not_contains hcontains]
    constructor
    · exact .inr
    · rintro (hcovered | hstandard)
      · refine load_of_not_contains (Bool.eq_false_iff.mpr fun hafter => ?_)
        exact hcovered ⟨hcontains, hafter⟩
      · exact hstandard

/-- What comes to light lies behind two dots that stand behind something missing. -/
theorem not_uncovers_of_isDirect (hclosed : t.IsClosed) (hdirect : t.IsDirect cwd root) :
    ¬ Uncovers t cwd root := by
  rintro ⟨hbefore, hafter⟩
  have hdirectory : t.IsDirect cwd (directoryOf root) :=
    hdirect.join isName_directory not_mem_directory
  have hfind := Tree.find?_below_makeDirectories hclosed hdirectory (pieces_fileOf root)
    (origin_fileOf cwd root) isName_file
  rw [Tree.contains, hfind] at hafter
  exact Bool.false_ne_true (hbefore.symm.trans hafter)

/-! ### Saving and loading -/

/-- Settings survive saving, in every directory. Loading what was saved gives it back; whatever
sections and fields are then removed from the file, loading gives the standard values for them and
the saved ones for all others. Settings that cannot be written as a document, those with too great a
number, leave every file as it was, and the settings that were loaded before are loaded still unless
others than the standard ones have come to light. That takes a directory that is given by two dots
behind something missing. -/
theorem load_saved (t : Tree) (cwd : Location) (root : String) (s : Settings) :
    (∀ t', save t cwd root s = .ok t' →
      load t' cwd root = .ok s ∧
        ∃ blocks, s.blocks? = some blocks ∧
          readText? t' cwd (fileOf root) = some (render blocks) ∧
          ∀ removed, ∃ t'',
            t'.write cwd (fileOf root) (Text.utf8 (render (without removed blocks))) = .ok t'' ∧
              load t'' cwd root = .ok (s.resetting removed)) ∧
    (save t cwd root s = .error .unwritable ↔
      (t.makeDirectories cwd (directoryOf root)).fault = none ∧
        0x8000000000000000 ≤ s.index.maxParentSearch.toNat) ∧
    (save t cwd root s = .error .unwritable →
      (∀ place bytes, (attemptSave t cwd root s).tree.node? place = some (.file bytes) ↔
        t.node? place = some (.file bytes)) ∧
      (load (attemptSave t cwd root s).tree cwd root = load t cwd root ↔
        ¬ Uncovers t cwd root ∨
          load (attemptSave t cwd root s).tree cwd root = .ok standard)) ∧
    (t.IsClosed ∧ t.IsDirect cwd root → ¬ Uncovers t cwd root) := by
  refine ⟨fun t' hsave => ?_, save_eq_unwritable_iff, fun hfault => ?_, ?_⟩
  · obtain ⟨blocks, hblocks, hfind⟩ := save_eq_ok hsave
    -- Loading at once is loading after nothing was removed.
    have hparse := parse?_render_without hblocks []
    rw [without_nil, resetting_nil] at hparse
    refine ⟨load_of_parse? hfind hparse, blocks, hblocks, readText?_of_find? hfind, ?_⟩
    intro removed
    obtain ⟨t'', hwrite⟩ := Tree.exists_write_eq_ok hfind
      (Text.utf8 (render (without removed blocks)))
    have hfound := Tree.find?_write (pieces_fileOf root) isName_file hwrite
    exact ⟨t'', hwrite, load_of_parse? hfound (parse?_render_without hblocks removed)⟩
  · -- The directories were made and nothing else, so every way that was there still is.
    rw [attemptSave_tree_of_unwritable hfault]
    have hgrows := t.makeDirectories_grows cwd (directoryOf root)
    exact ⟨fun place bytes => hgrows.node?_eq_file_iff, load_makeDirectories_eq_iff t cwd root⟩
  · rintro ⟨hclosed, hdirect⟩
    exact not_uncovers_of_isDirect hclosed hdirect

/-- Settings with strings that need escapes or several lines, the greatest number and no
extensions. -/
def awkward : Settings where
  index := ⟨"say \"''' and\r\n\"\"\" say\"", 0x7fffffffffffffff, []⟩
  output := ⟨.json⟩
  logging := ⟨true, false, "", "logs\\new", "\x7f", "one\ntwo"⟩

/-- Settings with a number that is too great by one. -/
def overfull : Settings :=
  { awkward with index := { awkward.index with maxParentSearch := 0x8000000000000000 } }

theorem load_saved_awkward :
    (∃ t' blocks t'',
      save Tree.empty [] "/work" awkward = .ok t' ∧ load t' [] "/work" = .ok awkward ∧
        awkward.blocks? = some blocks ∧
        t'.write [] (fileOf "/work") (Text.utf8 (render
          (without [.whole "index", .member "logging" "level"] blocks))) = .ok t'' ∧
        load t'' [] "/work" = .ok ⟨IndexSettings.standard, awkward.output,
          { awkward.logging with level := "debug" }⟩) ∧
    save Tree.empty [] "/work" overfull = .error .unwritable ∧
      load (attemptSave Tree.empty [] "/work" overfull).tree [] "/work" = .ok standard := by
  have hfault : save Tree.empty [] "/work" overfull = .error .unwritable :=
    save_eq_unwritable_iff.mpr ⟨by decide, by decide⟩
  have hclosed : Tree.empty.IsClosed := by
    intro place name h
    simp [Tree.empty, Tree.node?] at h
  have hdirect : Tree.empty.IsDirect [] "/work" := ⟨[], _, [], rfl, rfl, by decide⟩
  obtain ⟨t', hsave⟩ : ∃ t', save Tree.empty [] "/work" awkward = .ok t' := ⟨_, rfl⟩
  obtain ⟨hload, blocks, hblocks, -, hremoved⟩ :=
    (load_saved Tree.empty [] "/work" awkward).1 t' hsave
  obtain ⟨t'', hwrite, hload'⟩ := hremoved [.whole "index", .member "logging" "level"]
  obtain ⟨-, -, hfailed, hcovered⟩ := load_saved Tree.empty [] "/work" overfull
  refine ⟨⟨t', blocks, t'', hsave, hload, hblocks, hwrite, hload'⟩, hfault, ?_⟩
  exact (hfailed hfault).2.mpr (.inl (hcovered ⟨hclosed, hdirect⟩))

/-- A document that asks for JSON and leaves everything else open. -/
def asksForJson : List Char := "[output]\nformat = \"json\"\n".toList

/-- A directory with settings of its own. -/
def configured : Tree :=
  ⟨[([".scip-finder"], .directory),
    ([".scip-finder", "config.toml"], .file (Text.utf8 asksForJson))]⟩

theorem isFileTree_configured : configured.IsFileTree := Tree.isFileTree_of_entries (by decide)

/-- Two dots behind a missing directory hide the settings of the directory above it until a failed
attempt to save has made that directory. -/
theorem not_forall_load_of_unwritable :
    ¬ ∀ (t : Tree) (cwd : Location) (root : String) (s : Settings), t.IsFileTree →
      save t cwd root s = .error .unwritable →
        load (attemptSave t cwd root s).tree cwd root = load t cwd root := by
  intro h
  have hfault : save configured [] "a/.." overfull = .error .unwritable :=
    save_eq_unwritable_iff.mpr ⟨by decide, by decide⟩
  have hbefore : load configured [] "a/.." = .ok standard := load_of_not_contains (by decide)
  have hafter : load (attemptSave configured [] "a/.." overfull).tree [] "a/.." =
      .ok { standard with output := ⟨.json⟩ } := by
    have hparse : parse? asksForJson = some { standard with output := ⟨.json⟩ } := by
      decide +kernel
    rw [attemptSave_tree_of_unwritable hfault]
    exact load_of_parse? (by decide) hparse
  have hsame := h configured [] "a/.." overfull isFileTree_configured hfault
  rw [hbefore, hafter] at hsame
  exact absurd hsame (by decide)

end SymbolSearch.Settings
