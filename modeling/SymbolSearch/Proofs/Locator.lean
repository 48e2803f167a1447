import SymbolSearch.Locator
import SymbolSearch.Proofs.Files.Ancestors
import SymbolSearch.Proofs.Files.Inside

/-!
# The nearest index file

The search goes up from the start, one parent after the other, and takes the first file of the name.
It sees nothing but the insides of the directories within its limit.

## Main definitions

* `Locator.directory?` — the directory so many parents above the first
* `Locator.IsNearest` — the nearest file of the name within the limit

## Main results

* `Locator.search?_eq_some_iff`, `Locator.search?_eq_none_iff` — what the search finds
* `Locator.locate_nearest` — the index file is the nearest within the limit, whatever lies beyond it
-/

namespace SymbolSearch.Locator

open Files

variable {l : Locator} {t t' : Tree} {cwd : Location} {start path : String}

/-- The directory so many parents above the one that is searched first. -/
def directory? (t : Tree) (cwd : Location) (start : String) (i : Nat) : Option String :=
  Path.above? i (firstDirectory t cwd start)

/-- A path is the file of the name in a directory within the limit, and no directory nearer to the
start has a file of the name. -/
def IsNearest (l : Locator) (t : Tree) (cwd : Location) (start path : String) : Prop :=
  ∃ i < l.limit, ∃ directory, directory? t cwd start i = some directory ∧
    Path.join directory l.fileName = path ∧ t.isFile cwd path = true ∧
    ∀ j < i, ∀ nearer, directory? t cwd start j = some nearer →
      t.isFile cwd (Path.join nearer l.fileName) = false

/-- No directory within the limit has a file of the name. -/
def HasNone (l : Locator) (t : Tree) (cwd : Location) (start : String) : Prop :=
  ∀ i < l.limit, ∀ directory, directory? t cwd start i = some directory →
    t.isFile cwd (Path.join directory l.fileName) = false

/-- The directories above a start that can be resolved are those on the way to it. -/
theorem directory?_of_follow {place : Location} (h : t.IsFileTree)
    (hfollow : t.follow cwd start = .ok place) (i : Nat) :
    directory? t cwd start i =
      if i ≤ place.length then some (Tree.pathOf (place.take (place.length - i))) else none := by
  have hfirst : firstDirectory t cwd start = Tree.pathOf place := by
    rw [firstDirectory, Tree.canonical?, hfollow]
    rfl
  rw [directory?, hfirst, Tree.above?_pathOf (h.isName_of_follow hfollow)]

theorem IsNearest.exists_file (h : l.IsNearest t cwd start path) :
    ∃ bytes, t.find? cwd path = some (.file bytes) := by
  obtain ⟨i, -, directory, -, -, hfile, -⟩ := h
  exact Tree.isFile_iff.mp hfile

/-! ### The search -/

theorem getElem?_candidates_eq_some_iff {i : Nat} :
    (l.candidates t cwd start)[i]? = some path ↔
      i < l.limit ∧ ∃ directory, directory? t cwd start i = some directory ∧
        Path.join directory l.fileName = path := by
  rw [candidates, List.getElem?_map, List.getElem?_take, directories, Path.getElem?_ancestors,
    Option.map_eq_some_iff, ← directory?]
  by_cases hi : i < l.limit <;> simp [hi]

theorem mem_candidates_iff :
    path ∈ l.candidates t cwd start ↔
      ∃ i < l.limit, ∃ directory, directory? t cwd start i = some directory ∧
        Path.join directory l.fileName = path := by
  rw [List.mem_iff_getElem?]
  exact exists_congr fun i => getElem?_candidates_eq_some_iff

theorem search?_eq_none_iff : l.search? t cwd start = none ↔ l.HasNone t cwd start := by
  rw [search?, List.find?_eq_none]
  constructor
  · intro h i hi directory hdirectory
    exact Bool.eq_false_iff.mpr (h _ (mem_candidates_iff.mpr ⟨i, hi, directory, hdirectory, rfl⟩))
  · intro h path hmem
    obtain ⟨i, hi, directory, hdirectory, rfl⟩ := mem_candidates_iff.mp hmem
    exact Bool.eq_false_iff.mp (h i hi directory hdirectory)

theorem search?_eq_some_iff : l.search? t cwd start = some path ↔ l.IsNearest t cwd start path := by
  -- A candidate stands in the list at the number of parents between its directory and the start.
  rw [search?, List.find?_eq_some_iff_getElem]
  constructor
  · rintro ⟨hfile, i, hlength, hpath, hfirst⟩
    obtain ⟨hi, directory, hdirectory, hjoin⟩ :=
      getElem?_candidates_eq_some_iff.mp (List.getElem?_eq_some_iff.mpr ⟨hlength, hpath⟩)
    refine ⟨i, hi, directory, hdirectory, hjoin, hfile, fun j hj nearer hnearer => ?_⟩
    obtain ⟨hj', hget⟩ := List.getElem?_eq_some_iff.mp
      (getElem?_candidates_eq_some_iff.mpr ⟨Nat.lt_trans hj hi, nearer, hnearer, rfl⟩)
    have hnot := hfirst j hj
    rw [hget] at hnot
    simpa using hnot
  · rintro ⟨i, hi, directory, hdirectory, hjoin, hfile, hfirst⟩
    obtain ⟨hlength, hpath⟩ := List.getElem?_eq_some_iff.mp
      (getElem?_candidates_eq_some_iff.mpr ⟨hi, directory, hdirectory, hjoin⟩)
    refine ⟨hfile, i, hlength, hpath, fun j hj => ?_⟩
    obtain ⟨-, nearer, hnearer, hget⟩ := getElem?_candidates_eq_some_iff.mp
      (List.getElem?_eq_some_iff.mpr ⟨Nat.lt_trans hj hlength, rfl⟩)
    rw [← hget, hfirst j hj nearer hnearer]
    rfl

theorem locate_none_eq_ok_iff :
    l.locate t cwd none start = .ok path ↔ l.IsNearest t cwd start path := by
  rw [← search?_eq_some_iff, locate]
  cases l.search? t cwd start <;> simp

theorem locate_none_eq_error_iff {fault : Fault} :
    l.locate t cwd none start = .error fault ↔
      fault = .noIndex l.fileName ∧ l.HasNone t cwd start := by
  rw [← search?_eq_none_iff, locate]
  cases l.search? t cwd start <;> simp [eq_comm]

theorem locate_some_eq_ok_iff {named : String} :
    l.locate t cwd (some named) start = .ok path ↔ named = path ∧ t.contains cwd named = true := by
  rw [locate]
  split <;> simp_all

theorem locate_some_eq_error_iff {named : String} {fault : Fault} :
    l.locate t cwd (some named) start = .error fault ↔
      fault = .notFound named ∧ t.find? cwd named = none := by
  rw [locate, Tree.contains]
  cases t.find? cwd named <;> simp [eq_comm]

/-! ### The limit -/

theorem IsNearest.mono {limit : Nat} (h : l.IsNearest t cwd start path) (hlimit : l.limit ≤ limit) :
    { l with limit := limit }.IsNearest t cwd start path := by
  obtain ⟨i, hi, hnearest⟩ := h
  exact ⟨i, Nat.lt_of_lt_of_le hi hlimit, hnearest⟩

/-- The directories that are searched have no two dots, if the start has none or is resolved. -/
theorem dots_not_mem_directory {i : Nat} {directory : String} (h : t.IsFileTree)
    (hstart : t.canonical? cwd start = none → ['.', '.'] ∉ pieces start)
    (hdirectory : directory? t cwd start i = some directory) : ['.', '.'] ∉ pieces directory := by
  have hfirst : ['.', '.'] ∉ pieces (firstDirectory t cwd start) := by
    rw [firstDirectory]
    cases hcanonical : t.canonical? cwd start with
    | none => exact hstart hcanonical
    | some resolved => exact h.dots_not_mem_canonical hcanonical
  rw [directory?, ← Path.getElem?_ancestors] at hdirectory
  exact dots_not_mem_of_mem_ancestors hfirst (List.mem_of_getElem? hdirectory)

/-- The search takes the same file in two trees, where the directories are the same and the same of
them have a file. -/
theorem search?_congr (hfirst : firstDirectory t' cwd start = firstDirectory t cwd start)
    (hsame : ∀ i < l.limit, ∀ directory, directory? t cwd start i = some directory →
      t'.isFile cwd (Path.join directory l.fileName) =
        t.isFile cwd (Path.join directory l.fileName)) :
    l.search? t' cwd start = l.search? t cwd start := by
  have hdirectories : directories t' cwd start = directories t cwd start := by
    rw [directories, directories, hfirst]
  -- The candidates are the same paths, and the first hit is the first of them that is a file.
  rw [search?, search?, candidates, hdirectories, ← candidates, ← List.head?_filter,
    ← List.head?_filter]
  refine congrArg List.head? (List.filter_congr fun path hmem => ?_)
  obtain ⟨i, hi, directory, hdirectory, rfl⟩ := mem_candidates_iff.mp hmem
  exact hsame i hi directory hdirectory

/-- Without a named file, the index file is the nearest of the name within the limit, and it is
missing if there is none. So a greater limit changes nothing once a file is found. The directories
are the start, when it is resolved, and those on the way to it from the root. Nothing counts but the
insides of the directories within the limit, if the name does not lead out of them; a start that
cannot be resolved must not lead out of them either. -/
theorem locate_nearest (l : Locator) (t : Tree) (cwd : Location) (start : String) :
    (∀ path, l.locate t cwd none start = .ok path ↔ l.IsNearest t cwd start path) ∧
    (l.locate t cwd none start = .error (.noIndex l.fileName) ↔ l.HasNone t cwd start) ∧
    (∀ limit path, l.limit ≤ limit → l.locate t cwd none start = .ok path →
      { l with limit := limit }.locate t cwd none start = .ok path) ∧
    (t.IsFileTree → ∀ place, t.follow cwd start = .ok place → ∀ i,
      directory? t cwd start i =
        if i ≤ place.length then some (Tree.pathOf (place.take (place.length - i))) else none) ∧
    (∀ t', t.IsFileTree → t'.IsFileTree →
      t'.canonical? cwd start = t.canonical? cwd start →
      (t.canonical? cwd start = none → ['.', '.'] ∉ pieces start) →
      Path.isAbsolute l.fileName = false → ['.', '.'] ∉ pieces l.fileName →
      (∀ i < l.limit, ∀ directory, directory? t cwd start i = some directory →
        t.SameInside t' (placeOf cwd directory)) →
      l.locate t' cwd none start = l.locate t cwd none start) := by
  refine ⟨fun path => locate_none_eq_ok_iff, ?_, fun limit path hlimit h => ?_, ?_, ?_⟩
  · rw [locate_none_eq_error_iff]
    exact and_iff_right rfl
  · exact locate_none_eq_ok_iff.mpr ((locate_none_eq_ok_iff.mp h).mono hlimit)
  · exact fun htree place hfollow i => directory?_of_follow htree hfollow i
  · intro t' htree htree' hcanonical hstart hrelative hname hsame
    have hfirst : firstDirectory t' cwd start = firstDirectory t cwd start := by
      rw [firstDirectory, firstDirectory, hcanonical]
    have hsearch : l.search? t' cwd start = l.search? t cwd start := by
      -- Without two dots in the directory or the name, their join stays inside the directory.
      refine search?_congr hfirst fun i hi directory hdirectory => ?_
      have hdots := dots_not_mem_directory htree hstart hdirectory
      rw [Tree.isFile, Tree.isFile, (hsame i hi directory hdirectory).find?_join htree.isClosed
        htree'.isClosed hrelative hdots hname]
    rw [locate, locate, hsearch]

/-- Directories one in the other. The innermost has a directory of the name that is looked for, and
the next a file. -/
def nested : Tree :=
  ⟨[(["r"], .directory), (["r", "a"], .directory), (["r", "a", "b"], .directory),
    (["r", "a", "b", "index.scip"], .directory), (["r", "a", "index.scip"], .file [])]⟩

theorem isFileTree_nested : nested.IsFileTree := Tree.isFileTree_of_entries (by decide)

theorem locate_nearest_nested :
    locate ⟨"index.scip", 1⟩ nested ["r"] none "a/./b/../b" = .error (.noIndex "index.scip") ∧
    locate ⟨"index.scip", 2⟩ nested ["r"] none "a/./b/../b" = .ok "/r/a/index.scip" ∧
    locate ⟨"index.scip", 0xffffffffffffffff⟩ nested ["r"] none "a/./b/../b" =
      .ok "/r/a/index.scip" ∧
    locate ⟨"index.scip", 2⟩ (nested.put ["r", "index.scip"] (.file [])) ["r"] none "a/./b/../b" =
      .ok "/r/a/index.scip" := by
  obtain ⟨hok, -, hmono, hplaces, hcongr⟩ :=
    locate_nearest ⟨"index.scip", 2⟩ nested ["r"] "a/./b/../b"
  have hdirectory := hplaces isFileTree_nested ["r", "a", "b"] rfl
  have hfound :
      locate ⟨"index.scip", 2⟩ nested ["r"] none "a/./b/../b" = .ok "/r/a/index.scip" := by
    refine (hok _).mpr ⟨1, by decide, "/r/a", by rw [hdirectory]; decide, by decide, by decide, ?_⟩
    intro j hj nearer hnearer
    obtain rfl : j = 0 := by omega
    rw [hdirectory] at hnearer
    obtain rfl := Option.some.inj hnearer
    decide
  refine ⟨?_, hfound, hmono _ _ (by decide) hfound, ?_⟩
  · refine (locate_nearest ⟨"index.scip", 1⟩ nested ["r"] "a/./b/../b").2.1.mpr ?_
    intro i hi directory h
    obtain rfl : i = 0 := by
      have hi : i < 1 := hi
      omega
    rw [hdirectory] at h
    obtain rfl := Option.some.inj h
    decide
  · rw [← hfound]
    refine hcongr _ isFileTree_nested (Tree.isFileTree_of_entries (by decide)) (by decide)
      (by decide) (by decide) (by decide) ?_
    intro i hi directory h more
    -- What was put into the tree lies in none of the directories that are searched.
    obtain ⟨below, hbelow⟩ : ∃ below, placeOf ["r"] directory = "r" :: "a" :: below := by
      have hi : i < 2 := hi
      rw [hdirectory] at h
      obtain rfl | rfl : i = 0 ∨ i = 1 := by omega
      · obtain rfl := Option.some.inj h
        exact ⟨["b"], by decide⟩
      · obtain rfl := Option.some.inj h
        exact ⟨[], by decide⟩
    rw [hbelow]
    exact Tree.node?_put_of_ne nested (by simp) _

end SymbolSearch.Locator
