import SymbolSearch.Proofs.IndexFile.Load
import SymbolSearch.Proofs.Locator
import SymbolSearch.Session

/-!
# Opening the index

The index for a request is opened in two steps, and each asks the files in its own way: a named file
has to exist, one that is looked for has to be a file, and loading meets whatever is there. Together
they leave four ways to fail, each with a condition of its own.

## Main definitions

* `Session.IsLocated` — the index file for a request
* `Session.Fails` — why a request has no index

## Main results

* `Session.openIndex_eq_ok_iff`, `Session.openIndex_eq_error_iff` — opening the index
* `Session.openIndex_classified` — which failures there are, and when
-/

namespace SymbolSearch.Session

open Files

variable {s : Session} {settings : Settings} {request : Request} {path : String} {failure : Failure}
  {index : Index}

/-- The index file for a request: the one that is named, or the nearest of the configured name. -/
inductive IsLocated (s : Session) (settings : Settings) (request : Request) (path : String) :
    Prop where
  | named (h : request.indexFile = some path) (hfound : s.tree.contains s.cwd path = true)
  | nearest (h : request.indexFile = none)
      (hnearest : (locator settings).IsNearest s.tree s.cwd s.root path)

/-- Why a request has no index. -/
inductive Fails (s : Session) (settings : Settings) (request : Request) : Failure → Prop where
  | notFound {path : String} (h : request.indexFile = some path)
      (hnone : s.tree.find? s.cwd path = none) : Fails s settings request (.locate (.notFound path))
  | noIndex (h : request.indexFile = none)
      (hnone : (locator settings).HasNone s.tree s.cwd s.root) :
      Fails s settings request (.locate (.noIndex settings.index.fileName))
  | isDirectory {path : String} (h : request.indexFile = some path)
      (hdirectory : s.tree.find? s.cwd path = some .directory) :
      Fails s settings request (.load path (.unreadable path .isDirectory))
  | malformed {path : String} {bytes : List UInt8} {cause : Wire.Fault}
      (h : s.IsLocated settings request path) (hfile : s.tree.find? s.cwd path = some (.file bytes))
      (hbytes : IndexFile.IsMalformed bytes cause) :
      Fails s settings request (.load path (.malformed cause))

/-! ### Finding the file -/

theorem indexFile_eq_ok_iff :
    s.indexFile settings request = .ok path ↔ s.IsLocated settings request path := by
  have hlocate : s.indexFile settings request = .ok path ↔
      (locator settings).locate s.tree s.cwd request.indexFile s.root = .ok path := by
    rw [indexFile]
    cases (locator settings).locate s.tree s.cwd request.indexFile s.root <;> simp
  rw [hlocate]
  cases hnamed : request.indexFile with
  | none =>
    rw [Locator.locate_none_eq_ok_iff]
    refine ⟨.nearest hnamed, fun h => ?_⟩
    cases h with
    | named h => cases hnamed.symm.trans h
    | nearest _ hnearest => exact hnearest
  | some named =>
    rw [Locator.locate_some_eq_ok_iff]
    refine ⟨fun ⟨heq, hfound⟩ => .named (heq ▸ hnamed) (heq ▸ hfound), fun h => ?_⟩
    cases h with
    | named h hfound =>
      obtain rfl := Option.some.inj (hnamed.symm.trans h)
      exact ⟨rfl, hfound⟩
    | nearest h => cases hnamed.symm.trans h

theorem indexFile_eq_error_iff :
    s.indexFile settings request = .error failure ↔
      ∃ fault, (locator settings).locate s.tree s.cwd request.indexFile s.root = .error fault ∧
        failure = .locate fault := by
  rw [indexFile]
  cases (locator settings).locate s.tree s.cwd request.indexFile s.root <;> simp [eq_comm]

/-- The index file is there. -/
theorem IsLocated.find?_ne_none (h : s.IsLocated settings request path) :
    s.tree.find? s.cwd path ≠ none := by
  cases h with
  | named _ hfound => exact Option.isSome_iff_ne_none.mp hfound
  | nearest _ hnearest =>
    obtain ⟨bytes, hfile⟩ := hnearest.exists_file
    rw [hfile]
    exact nofun

/-- An index file that was looked for is no directory. -/
theorem IsLocated.of_directory (h : s.IsLocated settings request path)
    (hdirectory : s.tree.find? s.cwd path = some .directory) : request.indexFile = some path := by
  cases h with
  | named h => exact h
  | nearest _ hnearest =>
    obtain ⟨bytes, hfile⟩ := hnearest.exists_file
    cases hfile.symm.trans hdirectory

/-! ### Opening the index -/

theorem documents_eq_error_iff :
    s.documents path = .error failure ↔
      ∃ fault, IndexFile.load s.tree s.cwd path = .error fault ∧ failure = .load path fault := by
  rw [documents]
  cases IndexFile.load s.tree s.cwd path <;> simp [eq_comm]

theorem documents_eq_ok_iff {documents : List Document} :
    s.documents path = .ok documents ↔ IndexFile.load s.tree s.cwd path = .ok documents := by
  rw [Session.documents]
  cases IndexFile.load s.tree s.cwd path <;> simp

theorem openIndex_of_error (h : s.indexFile settings request = .error failure) :
    s.openIndex settings request = .error failure := by
  rw [openIndex, h]
  rfl

/-- What a request gets from its index file. -/
theorem openIndex_of_ok (h : s.indexFile settings request = .ok path) :
    s.openIndex settings request =
      (s.documents path).map (Index.build settings.index.convention) := by
  rw [openIndex, h]
  simp only [bind, Except.bind]
  cases s.documents path <;> rfl

theorem openIndex_eq_ok_iff :
    s.openIndex settings request = .ok index ↔
      ∃ path bytes documents, s.IsLocated settings request path ∧
        s.tree.find? s.cwd path = some (.file bytes) ∧ IndexFile.Holds bytes documents ∧
        index = Index.build settings.index.convention documents := by
  constructor
  · intro h
    cases hpath : s.indexFile settings request with
    | error failure =>
      rw [openIndex_of_error hpath] at h
      cases h
    | ok path =>
      rw [openIndex_of_ok hpath] at h
      cases hdocuments : s.documents path with
      | error failure =>
        rw [hdocuments] at h
        cases h
      | ok documents =>
        rw [hdocuments] at h
        obtain ⟨bytes, hfile, hholds⟩ :=
          IndexFile.load_eq_ok_iff.mp (documents_eq_ok_iff.mp hdocuments)
        exact ⟨path, bytes, documents, indexFile_eq_ok_iff.mp hpath, hfile, hholds,
          (Except.ok.inj h).symm⟩
  · rintro ⟨path, bytes, documents, hlocated, hfile, hholds, rfl⟩
    have hdocuments : s.documents path = .ok documents :=
      documents_eq_ok_iff.mpr (IndexFile.load_eq_ok_iff.mpr ⟨bytes, hfile, hholds⟩)
    rw [openIndex_of_ok (indexFile_eq_ok_iff.mpr hlocated), hdocuments]
    rfl

/-- Where no file is found, the failure is that of the locator. -/
theorem fails_of_indexFile (h : s.indexFile settings request = .error failure) :
    s.Fails settings request failure := by
  obtain ⟨fault, hlocate, rfl⟩ := indexFile_eq_error_iff.mp h
  cases hnamed : request.indexFile with
  | none =>
    rw [hnamed, Locator.locate_none_eq_error_iff] at hlocate
    obtain ⟨rfl, hnone⟩ := hlocate
    exact .noIndex hnamed hnone
  | some named =>
    rw [hnamed, Locator.locate_some_eq_error_iff] at hlocate
    obtain ⟨rfl, hnone⟩ := hlocate
    exact .notFound hnamed hnone

/-- Where a file is found, it cannot be missing any more, and it is a directory only if it was
named. -/
theorem fails_of_documents (hlocated : s.IsLocated settings request path)
    (h : s.documents path = .error failure) : s.Fails settings request failure := by
  obtain ⟨fault, hload, rfl⟩ := documents_eq_error_iff.mp h
  obtain ⟨hnone, -⟩ | ⟨hdirectory, rfl⟩ | ⟨bytes, cause, hfile, hbytes, rfl⟩ :=
    IndexFile.load_eq_error_iff.mp hload
  · exact absurd hnone hlocated.find?_ne_none
  · exact .isDirectory (hlocated.of_directory hdirectory) hdirectory
  · exact .malformed hlocated hfile hbytes

theorem openIndex_eq_error_of_load {fault : IndexFile.Fault}
    (hlocated : s.IsLocated settings request path)
    (h : IndexFile.load s.tree s.cwd path = .error fault) :
    s.openIndex settings request = .error (.load path fault) := by
  rw [openIndex_of_ok (indexFile_eq_ok_iff.mpr hlocated),
    documents_eq_error_iff.mpr ⟨fault, h, rfl⟩]
  rfl

theorem openIndex_eq_error_iff :
    s.openIndex settings request = .error failure ↔ s.Fails settings request failure := by
  constructor
  · intro h
    cases hpath : s.indexFile settings request with
    | error failure' =>
      obtain rfl := Except.error.inj ((openIndex_of_error hpath).symm.trans h)
      exact fails_of_indexFile hpath
    | ok path =>
      rw [openIndex_of_ok hpath] at h
      cases hdocuments : s.documents path with
      | error failure' =>
        rw [hdocuments] at h
        obtain rfl := Except.error.inj h
        exact fails_of_documents (indexFile_eq_ok_iff.mp hpath) hdocuments
      | ok documents =>
        rw [hdocuments] at h
        cases h
  · intro h
    cases h with
    | notFound h hnone =>
      refine openIndex_of_error (indexFile_eq_error_iff.mpr ⟨_, ?_, rfl⟩)
      rw [h, Locator.locate_some_eq_error_iff]
      exact ⟨rfl, hnone⟩
    | noIndex h hnone =>
      refine openIndex_of_error (indexFile_eq_error_iff.mpr ⟨_, ?_, rfl⟩)
      rw [h, Locator.locate_none_eq_error_iff]
      exact ⟨rfl, hnone⟩
    | isDirectory h hdirectory =>
      have hfound : s.tree.contains s.cwd _ = true := Option.isSome_of_eq_some hdirectory
      exact openIndex_eq_error_of_load (.named h hfound)
        (IndexFile.load_eq_error_iff.mpr (.inr (.inl ⟨hdirectory, rfl⟩)))
    | malformed hlocated hfile hbytes =>
      exact openIndex_eq_error_of_load hlocated
        (IndexFile.load_eq_error_iff.mpr (.inr (.inr ⟨_, _, hfile, hbytes, rfl⟩)))

/-- The index for a request is opened from a file that holds documents, and there are four ways to
fail: a named file does not exist, no file of the configured name is found within the limit, the
named file is a directory, or the bytes of the file are no index. In particular a file that was found
is never missing when it is loaded. -/
theorem openIndex_classified (s : Session) (settings : Settings) (request : Request) :
    (∀ index, s.openIndex settings request = .ok index ↔
      ∃ path bytes documents, s.IsLocated settings request path ∧
        s.tree.find? s.cwd path = some (.file bytes) ∧ IndexFile.Holds bytes documents ∧
        index = Index.build settings.index.convention documents) ∧
    (∀ path, s.openIndex settings request = .error (.locate (.notFound path)) ↔
      request.indexFile = some path ∧ s.tree.find? s.cwd path = none) ∧
    (∀ name, s.openIndex settings request = .error (.locate (.noIndex name)) ↔
      request.indexFile = none ∧ name = settings.index.fileName ∧
        (locator settings).HasNone s.tree s.cwd s.root) ∧
    (∀ path place fault,
      s.openIndex settings request = .error (.load path (.unreadable place fault)) ↔
        request.indexFile = some path ∧ s.tree.find? s.cwd path = some .directory ∧
          place = path ∧ fault = .isDirectory) ∧
    (∀ path cause, s.openIndex settings request = .error (.load path (.malformed cause)) ↔
      ∃ bytes, s.IsLocated settings request path ∧
        s.tree.find? s.cwd path = some (.file bytes) ∧ IndexFile.IsMalformed bytes cause) ∧
    (∀ path place, s.openIndex settings request ≠ .error (.load path (.notFound place))) ∧
    (∀ path fault, s.openIndex settings request ≠ .error (.logDirectory path fault) ∧
      s.openIndex settings request ≠ .error (.logFile path fault)) := by
  refine ⟨fun index => openIndex_eq_ok_iff, fun path => ?_, fun name => ?_,
    fun path place fault => ?_, fun path cause => ?_, fun path place h => ?_,
    fun path fault => ⟨fun h => ?_, fun h => ?_⟩⟩
  · rw [openIndex_eq_error_iff]
    refine ⟨fun h => ?_, fun ⟨h, hnone⟩ => .notFound h hnone⟩
    cases h with
    | notFound h hnone => exact ⟨h, hnone⟩
  · rw [openIndex_eq_error_iff]
    refine ⟨fun h => ?_, fun ⟨h, hname, hnone⟩ => hname ▸ .noIndex h hnone⟩
    cases h with
    | noIndex h hnone => exact ⟨h, rfl, hnone⟩
  · rw [openIndex_eq_error_iff]
    constructor
    · intro h
      cases h with
      | isDirectory h hdirectory => exact ⟨h, hdirectory, rfl, rfl⟩
    · rintro ⟨h, hdirectory, rfl, rfl⟩
      exact .isDirectory h hdirectory
  · rw [openIndex_eq_error_iff]
    refine ⟨fun h => ?_, fun ⟨bytes, h, hfile, hbytes⟩ => .malformed h hfile hbytes⟩
    cases h with
    | malformed h hfile hbytes => exact ⟨_, h, hfile, hbytes⟩
  -- No way to fail ends in one of the others.
  · cases openIndex_eq_error_iff.mp h
  · cases openIndex_eq_error_iff.mp h
  · cases openIndex_eq_error_iff.mp h

/-- A working directory with a directory in place of the index file, an empty file, and a file that
is no index. -/
def cluttered : Session :=
  ⟨⟨[(["w"], .directory), (["w", "index.scip"], .directory), (["w", "empty"], .file []),
    (["w", "broken"], .file [0xff])]⟩, ["w"], "/w"⟩

/-- A request that names an index file or none. -/
def naming (file : Option String) : Request := ⟨"main", file, none, none, .text⟩

theorem openIndex_classified_cluttered :
    cluttered.openIndex .standard (naming (some "missing")) =
      .error (.locate (.notFound "missing")) ∧
    cluttered.openIndex .standard (naming none) = .error (.locate (.noIndex "index.scip")) ∧
    cluttered.openIndex .standard (naming (some "index.scip")) =
      .error (.load "index.scip" (.unreadable "index.scip" .isDirectory)) ∧
    cluttered.openIndex .standard (naming (some "broken")) =
      .error (.load "broken" (.malformed .endOfData)) ∧
    (∃ index, cluttered.openIndex .standard (naming (some "empty")) = .ok index) := by
  have h := fun file => openIndex_classified cluttered .standard (naming file)
  refine ⟨?_, ?_, ?_, ?_, ?_⟩
  · exact ((h (some "missing")).2.1 _).mpr ⟨rfl, by decide⟩
  · refine ((h none).2.2.1 _).mpr ⟨rfl, rfl, ?_⟩
    exact Locator.search?_eq_none_iff.mp (by decide)
  · exact ((h (some "index.scip")).2.2.2.1 _ _ _).mpr ⟨rfl, by decide, rfl, rfl⟩
  · refine ((h (some "broken")).2.2.2.2.1 _ _).mpr
      ⟨[0xff], .named rfl (by decide), by decide, by decide, fun documents hjson => ?_, rfl⟩
    -- A JSON index has a brace.
    obtain ⟨before, between, mark, after, heq, -⟩ :=
      IndexFile.exists_opening_bytes (IndexFile.bind_parseJson?_eq_some_iff.mpr hjson)
    have hbrace : (0x7b : UInt8) ∈ [0xff] := by simp [heq]
    exact absurd hbrace (by decide)
  · exact ⟨_, ((h (some "empty")).1 _).mpr
      ⟨"empty", [], [], .named rfl (by decide), by decide, .empty rfl, rfl⟩⟩

end SymbolSearch.Session
