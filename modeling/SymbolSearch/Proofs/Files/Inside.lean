import SymbolSearch.Proofs.Files.Directories

/-!
# Paths without detours

In a tree in which everything lies in a directory, a path without two dots leads to one place, and
what it leads to depends on that place alone: the way there is open if there is something at the
place. Two such trees with the same files inside a directory are the same for all paths into it,
whatever stands around the directory.

## Main definitions

* `Files.placeOf` — the place of a path without two dots
* `Files.Tree.SameInside` — trees with the same things at and below a place
* `Files.Tree.IsFileTree` — trees as a file system has them

## Main results

* `Files.Tree.find?_congr` — what is found at a path depends on its place
* `Files.Tree.SameInside.find?_join` — what is found inside a directory depends on its inside
* `Files.Tree.IsFileTree.dots_not_mem_canonical` — resolved paths have no two dots
-/

namespace SymbolSearch.Files

/-- The place that a path without two dots leads to. -/
def placeOf (cwd : Location) (path : String) : Location :=
  Tree.origin cwd path ++ Tree.names (pieces path)

theorem placeOf_join {name : String} (cwd : Location) (base : String)
    (h : Path.isAbsolute name = false) :
    placeOf cwd (Path.join base name) = placeOf cwd base ++ Tree.names (pieces name) := by
  obtain ⟨above, hjoin, hbase⟩ := pieces_join_of_relative base h
  have hnames : Tree.names (pieces base) = Tree.names above := by
    obtain rfl | hbase := hbase
    · rfl
    · simp [hbase, Tree.names, Path.isComponent]
  rw [placeOf, placeOf, origin_join cwd base h, hjoin, hnames, List.append_assoc, Tree.names,
    Tree.names, Tree.names, List.filter_append, List.map_append]

theorem dots_not_mem_join {base name : String} (h : Path.isAbsolute name = false)
    (hbase : ['.', '.'] ∉ pieces base) (hname : ['.', '.'] ∉ pieces name) :
    ['.', '.'] ∉ pieces (Path.join base name) := by
  obtain ⟨above, hjoin, habove⟩ := pieces_join_of_relative base h
  rw [hjoin, List.mem_append, not_or]
  refine ⟨fun hmem => hbase ?_, hname⟩
  obtain rfl | habove := habove
  · exact hmem
  · exact habove ▸ List.mem_append_left _ hmem

/-- The paths above a path without two dots have none. -/
theorem dots_not_mem_of_mem_ancestors {path above : String} (h : ['.', '.'] ∉ pieces path)
    (hmem : above ∈ Path.ancestors path) : ['.', '.'] ∉ pieces above := by
  obtain rfl | hstart := startsWith_of_mem_ancestors hmem
  · exact fun hdots => List.cons_ne_nil _ _ (eq_nil_of_mem_pieces_top hdots)
  · exact fun hdots => h (hstart.pieces.subset hdots)

namespace Tree

variable {t t' : Tree} {cwd here place : Location} {path : String} {node : Node}

/-! ### What a path leads to -/

theorem IsClosed.find?_eq_some (h' : t'.IsClosed) (hdots : ['.', '.'] ∉ pieces path)
    (hnode : t'.node? (placeOf cwd path) = t.node? (placeOf cwd path))
    (hfind : t.find? cwd path = some node) : t'.find? cwd path = some node := by
  obtain ⟨place, hresolve, hplace⟩ := find?_eq_some_iff.mp hfind
  obtain ⟨husable, hwalk⟩ := resolve_eq_ok_iff.mp hresolve
  obtain rfl : place = placeOf cwd path := eq_append_names_of_walk hdots hwalk
  have hplace' := hnode.trans hplace
  -- The other tree has something at the place, so it has the directories on the way there.
  refine find?_eq_some_iff.mpr ⟨_, resolve_eq_ok_iff.mpr ⟨husable, ?_⟩, hplace'⟩
  refine h'.walk hdots hwalk (by rw [hplace']; rfl) fun hdirectory => ?_
  rw [isDirectoryAt, hnode]
  exact hdirectory

/-- What is found at a path without two dots depends on its place alone. -/
theorem find?_congr (h : t.IsClosed) (h' : t'.IsClosed) (hdots : ['.', '.'] ∉ pieces path)
    (hnode : t'.node? (placeOf cwd path) = t.node? (placeOf cwd path)) :
    t'.find? cwd path = t.find? cwd path :=
  Option.ext fun _ => ⟨h.find?_eq_some hdots hnode.symm, h'.find?_eq_some hdots hnode⟩

/-- Two trees have the same at a place and below it. -/
def SameInside (t t' : Tree) (place : Location) : Prop :=
  ∀ more, t'.node? (place ++ more) = t.node? (place ++ more)

theorem SameInside.find?_join {base name : String} (hsame : SameInside t t' (placeOf cwd base))
    (h : t.IsClosed) (h' : t'.IsClosed) (hrelative : Path.isAbsolute name = false)
    (hbase : ['.', '.'] ∉ pieces base) (hname : ['.', '.'] ∉ pieces name) :
    t'.find? cwd (Path.join base name) = t.find? cwd (Path.join base name) := by
  refine find?_congr h h' (dots_not_mem_join hrelative hbase hname) ?_
  rw [placeOf_join cwd base hrelative]
  exact hsame _

/-! ### Resolved paths -/

/-- There is something wherever a way leads. -/
theorem IsClosed.isSome_of_walk (h : t.IsClosed) {way : List (List Char)}
    (hhere : (t.node? here).isSome = true) (hwalk : t.walk here way = .ok place) :
    (t.node? place).isSome = true := by
  induction way generalizing here with
  | nil =>
    obtain rfl := Except.ok.inj hwalk
    exact hhere
  | cons piece way ih =>
    obtain ⟨-, next, hstep, hrest⟩ := walk_cons_eq_ok_iff.mp hwalk
    refine ih ?_ hrest
    cases hstep with
    | stay => exact hhere
    | up =>
      -- Above the root is the root itself.
      obtain rfl | ⟨above, name, rfl⟩ := List.eq_nil_or_concat here
      · exact hhere
      · rw [List.concat_eq_append] at hhere ⊢
        rw [List.dropLast_concat]
        exact h.isSome_of_append [name] hhere
    | down _ hnode => exact hnode

/-- A tree as a file system has it: everything lies in a directory and has a name there. -/
structure IsFileTree (t : Tree) : Prop where
  isClosed : t.IsClosed
  isName : ∀ place name, (t.node? (place ++ [name])).isSome = true →
    IsName name.toList ∧ '/' ∉ name.toList

/-- Whether something is a file tree can be seen from its entries. -/
theorem isFileTree_of_entries (h : ∀ entry ∈ t.entries, ∀ name ∈ entry.1.getLast?,
    t.isDirectoryAt entry.1.dropLast = true ∧ IsName name.toList ∧ '/' ∉ name.toList) :
    t.IsFileTree := by
  have hentry : ∀ place name, (t.node? (place ++ [name])).isSome = true →
      t.isDirectoryAt place = true ∧ IsName name.toList ∧ '/' ∉ name.toList := by
    intro place name hsome
    obtain ⟨node, hnode⟩ := Option.isSome_iff_exists.mp hsome
    rw [node?, if_neg (by simp)] at hnode
    obtain ⟨before, after, hentries, -⟩ := List.lookup_eq_some_iff.mp hnode
    simpa using h (place ++ [name], node) (by simp [hentries]) name (by simp)
  exact ⟨fun place name hsome => (hentry place name hsome).1,
    fun place name hsome => (hentry place name hsome).2⟩

theorem IsFileTree.isName_of_mem (h : t.IsFileTree) (hplace : (t.node? place).isSome = true)
    {name : String} (hmem : name ∈ place) : IsName name.toList ∧ '/' ∉ name.toList := by
  obtain ⟨above, below, rfl⟩ := List.append_of_mem hmem
  exact h.isName above name (h.isClosed.isSome_of_append below (by simpa using hplace))

theorem mem_of_mem_pieces_intercalate {piece : List Char}
    (hslash : ∀ name ∈ place, '/' ∉ name.toList) (hmem : piece ∈ pieces ("/".intercalate place)) :
    piece = [] ∨ ∃ name ∈ place, piece = name.toList := by
  have hseparator : "/".toList = ['/'] := by decide
  induction place with
  | nil => exact .inl (List.mem_singleton.mp hmem)
  | cons name place ih =>
    rw [List.forall_mem_cons] at hslash
    have hname : pieces name = [name.toList] := Text.splitOn_of_not_mem hslash.1
    by_cases hne : place = []
    · subst hne
      rw [String.intercalate_singleton, hname, List.mem_singleton] at hmem
      exact .inr ⟨name, List.mem_singleton_self name, hmem⟩
    · rw [String.intercalate_cons_of_ne_nil hne, pieces, String.toList_append,
        String.toList_append, hseparator, List.append_assoc, List.singleton_append,
        Text.splitOn_append_sep, List.mem_append, ← pieces, ← pieces, hname,
        List.mem_singleton] at hmem
      obtain rfl | hmem := hmem
      · exact .inr ⟨name, List.mem_cons_self, rfl⟩
      · obtain hnil | ⟨other, hother, heq⟩ := ih hslash.2 hmem
        · exact .inl hnil
        · exact .inr ⟨other, List.mem_cons_of_mem _ hother, heq⟩

/-- The path of a location has the names of the location for its pieces. -/
theorem mem_of_mem_pieces_pathOf {piece : List Char}
    (hslash : ∀ name ∈ place, '/' ∉ name.toList) (hmem : piece ∈ pieces (pathOf place)) :
    piece = [] ∨ ∃ name ∈ place, piece = name.toList := by
  have hroot : (pathOf place).toList = [] ++ '/' :: ("/".intercalate place).toList := by
    rw [pathOf, String.toList_append]
    rfl
  rw [pieces, hroot, Text.splitOn_append_sep, List.mem_append] at hmem
  obtain hmem | hmem := hmem
  · exact .inl (List.mem_singleton.mp hmem)
  · exact mem_of_mem_pieces_intercalate hslash hmem

/-- A path that can be followed leads to a place with names. -/
theorem IsFileTree.isName_of_follow (h : t.IsFileTree) (hfollow : t.follow cwd path = .ok place) :
    ∀ name ∈ place, IsName name.toList ∧ '/' ∉ name.toList := by
  obtain ⟨-, -, hwalk⟩ := follow_eq_ok_iff.mp hfollow
  -- A path has a first piece, and following it takes a directory to start from.
  obtain ⟨first, more, hpieces⟩ := List.exists_cons_of_ne_nil (Text.splitOn_ne_nil '/' path.toList)
  have hfirst : t.walk (origin cwd path) (first :: more) = .ok place := hpieces ▸ hwalk
  have horigin := (walk_cons_eq_ok_iff.mp hfirst).1
  have hplace := h.isClosed.isSome_of_walk (isSome_of_isDirectoryAt horigin) hwalk
  exact fun name hmem => h.isName_of_mem hplace hmem

/-- A resolved path has no two dots. -/
theorem IsFileTree.dots_not_mem_canonical (h : t.IsFileTree) {start : String}
    (hcanonical : t.canonical? cwd start = some path) : ['.', '.'] ∉ pieces path := by
  unfold canonical? at hcanonical
  split at hcanonical
  · next place hfollow =>
    obtain rfl := Option.some.inj hcanonical
    have hnames := h.isName_of_follow hfollow
    intro hdots
    obtain heq | ⟨name, hmem, heq⟩ :=
      mem_of_mem_pieces_pathOf (fun name hmem => (hnames name hmem).2) hdots
    · cases heq
    · exact (hnames name hmem).1.ne_dots heq.symm
  · cases hcanonical

end Tree

end SymbolSearch.Files
