import SymbolSearch.Proofs.Files.Tree

/-!
# Making directories

Making a directory with those above it changes nothing that is there: directories come to be at vacant
places, and every path that led to something leads to the same as before. A path that led nowhere can
lead somewhere afterwards, for two dots behind a directory that was missing lead on once the directory
has been made. A path that does not go that way leads nowhere still.

## Main definitions

* `Files.Tree.Grows` — a tree with more directories than another
* `Files.Tree.IsClosed` — everything lies in a directory
* `Files.Tree.IsDirect` — a path without two dots behind what is missing

## Main results

* `Files.Tree.makeDirectories_grows` — directories are only added
* `Files.Tree.find?_below_makeDirectories` — making a directory does not change what is found in it
-/

namespace SymbolSearch.Files

/-! ### The paths above a path -/

/-- A path starts with another that ends where a slash or nothing follows. -/
def StartsWith (path start : String) : Prop :=
  path.toList = start.toList ∨ ∃ rest, path.toList = start.toList ++ '/' :: rest

theorem StartsWith.pieces {path start : String} (h : StartsWith path start) :
    Files.pieces start <+: Files.pieces path := by
  unfold Files.pieces
  obtain heq | ⟨rest, heq⟩ := h
  · exact ⟨[], by rw [heq, List.append_nil]⟩
  · exact ⟨Text.splitOn '/' rest, by rw [heq, Text.splitOn_append_sep]⟩

theorem origin_eq_of_append {path start : String} {more : List Char} (hne : start.isEmpty = false)
    (h : path.toList = start.toList ++ more) (cwd : Location) :
    Tree.origin cwd path = Tree.origin cwd start := by
  obtain ⟨c, s, hstart⟩ := List.exists_cons_of_ne_nil (l := start.toList) (by simpa using hne)
  have hhead : path.toList.head? = start.toList.head? := by
    rw [h, hstart]
    rfl
  rw [Tree.origin, Tree.origin, Path.isAbsolute, Path.isAbsolute, hhead]

theorem StartsWith.origin {path start : String} (h : StartsWith path start)
    (hne : start.isEmpty = false) (cwd : Location) :
    Tree.origin cwd start = Tree.origin cwd path := by
  obtain heq | ⟨rest, heq⟩ := h
  · exact (origin_eq_of_append hne (heq.trans (List.append_nil _).symm) cwd).symm
  · exact (origin_eq_of_append hne heq cwd).symm

theorem exists_of_mem_startsFrom {taken piece s start : List Char}
    (h : start ∈ Path.startsFrom taken piece s) :
    ∃ more, start = taken.reverse ++ more ∧ (s = more ∨ ∃ rest, s = more ++ '/' :: rest) := by
  induction s generalizing taken piece with
  | nil =>
    rw [Path.startsFrom] at h
    split at h
    · exact ⟨[], by simpa using h, .inl rfl⟩
    · cases h
  | cons c s ih =>
    -- What is read later starts with the character at hand.
    have hlater : ∀ piece, start ∈ Path.startsFrom (c :: taken) piece s →
        ∃ more, start = taken.reverse ++ more ∧
          (c :: s = more ∨ ∃ rest, c :: s = more ++ '/' :: rest) := by
      intro piece hmem
      obtain ⟨more, heq, hs⟩ := ih hmem
      refine ⟨c :: more, by simpa using heq, ?_⟩
      obtain rfl | ⟨rest, rfl⟩ := hs
      · exact .inl rfl
      · exact .inr ⟨rest, rfl⟩
    rw [Path.startsFrom] at h
    split at h
    · next hslash =>
      subst hslash
      split at h
      · obtain rfl | hmem := List.mem_cons.mp h
        · exact ⟨[], (List.append_nil _).symm, .inr ⟨s, rfl⟩⟩
        · exact hlater [] hmem
      · exact hlater [] h
    · exact hlater (c :: piece) h

/-- What is left of a path without its components has no names. -/
theorem eq_nil_of_mem_pieces_top {path : String} {piece : List Char}
    (h : piece ∈ pieces (Path.top path)) : piece = [] := by
  have hroot : pieces "/" = [[], []] := by decide
  have hnothing : pieces "" = [[]] := by decide
  rw [Path.top] at h
  split at h
  · simpa [hroot] using h
  · simpa [hnothing] using h

theorem startsWith_of_mem_ancestors {path start : String} (h : start ∈ Path.ancestors path) :
    start = Path.top path ∨ StartsWith path start := by
  rw [Path.ancestors, Path.parents, List.mem_cons, List.mem_reverse] at h
  obtain rfl | hmem := h
  · exact .inr (.inl rfl)
  · obtain rfl | hmem := List.mem_cons.mp ((List.dropLast_subset _) hmem)
    · exact .inl rfl
    · obtain ⟨s, hs, rfl⟩ := List.mem_map.mp hmem
      obtain ⟨more, heq, hpath⟩ := exists_of_mem_startsFrom hs
      rw [List.reverse_nil, List.nil_append] at heq
      subst heq
      right
      simpa [StartsWith] using hpath

/-! ### A path below another -/

theorem isAbsolute_of_not_mem {name : String} (h : '/' ∉ name.toList) :
    Path.isAbsolute name = false := by
  rw [Path.isAbsolute, beq_eq_false_iff_ne]
  exact fun hhead => h (List.mem_of_mem_head? hhead)

/-- A relative path below another adds its pieces. A slash at the end of the other is no piece of
its own then. -/
theorem pieces_join_of_relative {name : String} (base : String)
    (h : Path.isAbsolute name = false) :
    ∃ above, pieces (Path.join base name) = above ++ pieces name ∧
      (pieces base = above ∨ pieces base = above ++ [[]]) := by
  unfold Path.join pieces
  rw [h, Bool.false_or]
  split
  · next hempty =>
    rw [String.isEmpty_iff.mp hempty]
    exact ⟨[], rfl, .inr rfl⟩
  · split
    · next hslash =>
      obtain ⟨before, heq⟩ := List.getLast?_eq_some_iff.mp (beq_iff_eq.mp hslash)
      refine ⟨Text.splitOn '/' before, ?_, .inr ?_⟩
      · rw [String.toList_append, heq, List.append_assoc, List.singleton_append,
          Text.splitOn_append_sep]
      · rw [heq, Text.splitOn_append_sep]
        rfl
    · refine ⟨Text.splitOn '/' base.toList, ?_, .inl rfl⟩
      have hslash : "/".toList = ['/'] := by decide
      rw [String.toList_append, String.toList_append, hslash, List.append_assoc,
        List.singleton_append, Text.splitOn_append_sep]

/-- A name below a path is one more piece. -/
theorem pieces_join {name : String} (base : String) (h : '/' ∉ name.toList) :
    ∃ above, pieces (Path.join base name) = above ++ [name.toList] ∧
      (pieces base = above ∨ pieces base = above ++ [[]]) := by
  obtain ⟨above, hjoin, hbase⟩ := pieces_join_of_relative base (isAbsolute_of_not_mem h)
  exact ⟨above, Text.splitOn_of_not_mem h ▸ hjoin, hbase⟩

theorem origin_join {name : String} (cwd : Location) (base : String)
    (h : Path.isAbsolute name = false) :
    Tree.origin cwd (Path.join base name) = Tree.origin cwd base := by
  unfold Path.join
  rw [h, Bool.false_or]
  split
  · next hempty =>
    rw [String.isEmpty_iff.mp hempty, Tree.origin, h]
    rfl
  · next hne =>
    have hne : base.isEmpty = false := by simpa using hne
    split
    · exact origin_eq_of_append hne (String.toList_append ..) cwd
    · rw [String.append_assoc]
      exact origin_eq_of_append hne (String.toList_append ..) cwd

namespace Tree

variable {t t' t'' : Tree} {new : Location → Prop} {cwd : Location} {path : String}

/-! ### Trees that grow -/

/-- A tree has what another has and more directories, at places of a class. -/
structure Grows (new : Location → Prop) (t t' : Tree) : Prop where
  old : ∀ place node, t.node? place = some node → t'.node? place = some node
  new : ∀ place node, t.node? place = none → t'.node? place = some node →
    node = .directory ∧ new place

theorem Grows.refl (new : Location → Prop) (t : Tree) : Grows new t t where
  old _ _ h := h
  new place node hnone hnode := by
    rw [hnone] at hnode
    cases hnode

theorem Grows.trans (h : Grows new t t') (h' : Grows new t' t'') : Grows new t t'' where
  old place node hnode := h'.old place node (h.old place node hnode)
  new place node hnone hnode := by
    cases hmiddle : t'.node? place with
    | none => exact h'.new place node hmiddle hnode
    | some middle =>
      obtain rfl := Option.some.inj ((h'.old place middle hmiddle).symm.trans hnode)
      exact h.new place middle hnone hmiddle

theorem Grows.keeps (h : Grows new t t') : Keeps t t' where
  isDirectoryAt place hplace := by
    rw [isDirectoryAt, beq_iff_eq] at hplace ⊢
    exact h.old place _ hplace
  isSome place hplace := by
    obtain ⟨node, hnode⟩ := Option.isSome_iff_exists.mp hplace
    rw [h.old place node hnode]
    rfl

/-- A path that leads to something leads to the same in a tree that has grown. -/
theorem Grows.find? (h : Grows new t t') {node : Node} (hfind : t.find? cwd path = some node) :
    t'.find? cwd path = some node := by
  obtain ⟨place, hresolve, hnode⟩ := find?_eq_some_iff.mp hfind
  exact find?_eq_some_iff.mpr ⟨place, h.keeps.resolve hresolve, h.old place node hnode⟩

/-- A tree that has grown has the same files. -/
theorem Grows.node?_eq_file_iff (h : Grows new t t') {place : Location} {bytes : List UInt8} :
    t'.node? place = some (.file bytes) ↔ t.node? place = some (.file bytes) := by
  refine ⟨fun hfile => ?_, h.old place _⟩
  cases hnode : t.node? place with
  | none => cases (h.new place _ hnode hfile).1
  | some node => exact (h.old place node hnode).symm.trans hfile

theorem grows_put_directory {place : Location} (hnone : t.node? place = none) (hnew : new place) :
    Grows new t (t.put place .directory) where
  old other node hnode := by
    rw [node?_put_of_ne t, hnode]
    rintro rfl
    rw [hnone] at hnode
    cases hnode
  new other node hother hnode := by
    by_cases heq : other = place
    · subst heq
      have hne : other ≠ [] := by
        rintro rfl
        cases hother
      rw [node?_put_self t hne] at hnode
      exact ⟨(Option.some.inj hnode).symm, hnew⟩
    · rw [node?_put_of_ne t heq, hother] at hnode
      cases hnode

/-! ### Making directories -/

theorem ensureDirectory_grows (hnew : ∀ place, t.newPlace cwd path = .ok place → new place) :
    Grows new t (t.ensureDirectory cwd path).tree := by
  unfold ensureDirectory
  split
  · exact Grows.refl new t
  · rw [makeDirectory]
    cases hplace : t.newPlace cwd path with
    | error fault => exact Grows.refl new t
    | ok place =>
      obtain ⟨-, above, last, -, -, parent, -, -, -, hnone⟩ := newPlace_eq_ok hplace
      exact grows_put_directory hnone (hnew place hplace)

/-- A chain of directories is made where each of them can be made in the course of it. -/
theorem makeDirectoryChain_grows {paths : List String}
    (hnew : ∀ path ∈ paths, ∀ t', Grows new t t' → ∀ place,
      t'.newPlace cwd path = .ok place → new place) :
    Grows new t (t.makeDirectoryChain cwd paths).tree := by
  induction paths with
  | nil => exact Grows.refl new t
  | cons path above ih =>
    rw [List.forall_mem_cons] at hnew
    have habove := ih hnew.2
    have hfirst := ensureDirectory_grows (hnew.1 t (Grows.refl new t))
    have hagain := ensureDirectory_grows (hnew.1 _ habove)
    rw [makeDirectoryChain]
    split
    · unfold Attempt.andThen
      split
      · exact habove
      · exact habove.trans hagain
    · exact hfirst

/-- Making directories only adds directories. -/
theorem makeDirectories_grows (t : Tree) (cwd : Location) (path : String) :
    Grows (fun _ => True) t (t.makeDirectories cwd path).tree :=
  makeDirectoryChain_grows fun _ _ _ _ _ _ => trivial

/-! ### Direct paths -/

/-- Everything lies in a directory. -/
def IsClosed (t : Tree) : Prop :=
  ∀ place name, (t.node? (place ++ [name])).isSome = true → t.isDirectoryAt place = true

/-- No two dots of a path stand behind something that is missing. -/
def IsDirect (t : Tree) (cwd : Location) (path : String) : Prop :=
  ∃ known fresh place, pieces path = known ++ fresh ∧
    t.walk (origin cwd path) known = .ok place ∧ ['.', '.'] ∉ fresh

/-- The names among the pieces of a path. -/
def names (pieces : List (List Char)) : List String :=
  (pieces.filter Path.isComponent).map String.ofList

variable {here place : Location} {fresh : List (List Char)}

theorem isSome_of_isDirectoryAt (h : t.isDirectoryAt place = true) :
    (t.node? place).isSome = true := by
  rw [isDirectoryAt, beq_iff_eq] at h
  rw [h]
  rfl

/-- There is something at every place on the way to something. -/
theorem IsClosed.isSome_of_append (h : t.IsClosed) (more : List String)
    (hplace : (t.node? (place ++ more)).isSome = true) : (t.node? place).isSome = true := by
  induction more generalizing place with
  | nil => simpa using hplace
  | cons name more ih =>
    have hchild : (t.node? (place ++ [name])).isSome = true := ih (by simpa using hplace)
    exact isSome_of_isDirectoryAt (h place name hchild)

theorem IsClosed.isDirectoryAt_of_append (h : t.IsClosed) {name : String} {more : List String}
    (hplace : (t.node? (place ++ name :: more)).isSome = true) : t.isDirectoryAt place = true :=
  h place name (h.isSome_of_append more (by simpa using hplace))

/-- Without two dots, one goes down from name to name. -/
theorem eq_append_names_of_walk (hfresh : ['.', '.'] ∉ fresh) (h : t.walk here fresh = .ok place) :
    place = here ++ names fresh := by
  induction fresh generalizing here with
  | nil =>
    rw [walk, Except.ok.injEq] at h
    rw [← h, names, List.filter_nil, List.map_nil, List.append_nil]
  | cons piece fresh ih =>
    rw [List.mem_cons, not_or] at hfresh
    obtain ⟨-, next, hstep, hrest⟩ := walk_cons_eq_ok_iff.mp h
    rw [ih hfresh.2 hrest]
    cases hstep with
    | stay hstay => simp [names, hstay]
    | up hup => exact absurd hup.symm hfresh.1
    | down hname _ => simp [names, hname.isComponent]

/-- A direct way is there if what it leads to is, and is a directory if it was one. -/
theorem IsClosed.walk (h : t.IsClosed) (hfresh : ['.', '.'] ∉ fresh)
    (hwalk : t'.walk here fresh = .ok place) (hplace : (t.node? place).isSome = true)
    (hdirectory : t'.isDirectoryAt place = true → t.isDirectoryAt place = true) :
    t.walk here fresh = .ok place := by
  induction fresh generalizing here with
  | nil => exact hwalk
  | cons piece fresh ih =>
    have heq := eq_append_names_of_walk hfresh hwalk
    rw [List.mem_cons, not_or] at hfresh
    obtain ⟨hhere', next, hstep, hrest⟩ := walk_cons_eq_ok_iff.mp hwalk
    have hhere : t.isDirectoryAt here = true := by
      cases hnames : names (piece :: fresh) with
      | nil =>
        rw [hnames, List.append_nil] at heq
        exact heq ▸ hdirectory (heq ▸ hhere')
      | cons name more => exact h.isDirectoryAt_of_append (hnames ▸ heq ▸ hplace)
    refine walk_cons_eq_ok_iff.mpr ⟨hhere, next, ?_, ih hfresh.2 hrest⟩
    cases hstep with
    | stay hstay => exact .stay hstay
    | up hup => exact .up hup
    | down hname _ =>
      exact .down hname (h.isSome_of_append _ (eq_append_names_of_walk hfresh.2 hrest ▸ hplace))

theorem names_mono {some all : List (List Char)} (h : some <+: all) : names some <+: names all :=
  (h.filter Path.isComponent).map String.ofList

/-- The directories that are made for a direct path lie on the way from what is there to its end. -/
theorem prefix_of_newPlace_eq_ok {known : List (List Char)} {start : String}
    (hpieces : pieces path = known ++ fresh) (hknown : t.walk (origin cwd path) known = .ok here)
    (hfresh : ['.', '.'] ∉ fresh) (hstart : StartsWith path start)
    (h : t.newPlace cwd start = .ok place) : place <+: here ++ names fresh := by
  obtain ⟨-, above, last, ⟨slashes, hends, -⟩, hname, parent, hwalk, hparent, rfl, hnone⟩ :=
    newPlace_eq_ok h
  rw [hstart.origin (hname.isEmpty_eq_false (by simp [hends])) cwd] at hwalk
  have hpre : above ++ [last] <+: known ++ fresh :=
    hpieces ▸ (List.prefix_append _ slashes).trans (hends ▸ hstart.pieces)
  obtain hshort | hlong : above ++ [last] <+: known ∨ known <+: above := by
    obtain hshort | hlong :=
      List.prefix_or_prefix_of_prefix hpre (List.prefix_append known fresh)
    · exact .inl hshort
    · obtain heq | hlong := List.prefix_concat_iff.mp hlong
      · exact .inl (heq ▸ List.prefix_refl _)
      · exact .inr hlong
  · -- What is there already is not made.
    obtain ⟨more, rfl⟩ := hshort
    obtain ⟨middle, hmiddle, -⟩ := walk_append_eq_ok_iff.mp hknown
    obtain ⟨parent', hwalk', -, rfl, hsome⟩ := (walk_concat_eq_ok_iff hname).mp hmiddle
    obtain rfl := Except.ok.inj (hwalk.symm.trans hwalk')
    rw [hnone] at hsome
    exact absurd hsome Bool.false_ne_true
  · obtain ⟨way, rfl⟩ := hlong
    obtain ⟨middle, hmiddle, hway⟩ := walk_append_eq_ok_iff.mp hwalk
    obtain rfl := Except.ok.inj (hknown.symm.trans hmiddle)
    rw [List.append_assoc, List.prefix_append_right_inj] at hpre
    have hdots : ['.', '.'] ∉ way := fun hmem =>
      hfresh (hpre.subset (List.mem_append_left _ hmem))
    have hnames : names (way ++ [last]) = names way ++ [String.ofList last] := by
      simp [names, hname.isComponent]
    rw [eq_append_names_of_walk hdots hway, List.append_assoc, ← hnames,
      List.prefix_append_right_inj]
    exact names_mono hpre

theorem newPlace_top (t : Tree) (cwd place : Location) (path : String) :
    t.newPlace cwd (Path.top path) ≠ .ok place := by
  intro h
  obtain ⟨-, above, last, ⟨slashes, hends, -⟩, hname, -⟩ := newPlace_eq_ok h
  have hmem : last ∈ pieces (Path.top path) := by simp [hends]
  exact hname.ne_nil (eq_nil_of_mem_pieces_top hmem)

theorem makeDirectories_grows_of_direct {known : List (List Char)}
    (hpieces : pieces path = known ++ fresh) (hknown : t.walk (origin cwd path) known = .ok here)
    (hfresh : ['.', '.'] ∉ fresh) :
    Grows (· <+: here ++ names fresh) t (t.makeDirectories cwd path).tree := by
  refine makeDirectoryChain_grows fun start hstart t' hgrows place hplace => ?_
  obtain rfl | hstart := startsWith_of_mem_ancestors hstart
  · exact absurd hplace (newPlace_top t' cwd place path)
  · exact prefix_of_newPlace_eq_ok hpieces (hgrows.keeps.walk hknown) hfresh hstart hplace

/-- Making a directory does not change what is found in it, if its path is direct. -/
theorem find?_below_makeDirectories {below : String} {last : List Char} (hclosed : t.IsClosed)
    (hdirect : t.IsDirect cwd path) (hpieces : pieces below = pieces path ++ [last])
    (horigin : origin cwd below = origin cwd path) (hlast : IsName last) :
    (t.makeDirectories cwd path).tree.find? cwd below = t.find? cwd below := by
  obtain ⟨known, fresh, here, hpath, hknown, hfresh⟩ := hdirect
  have hgrows := makeDirectories_grows_of_direct hpath hknown hfresh
  cases hfind : t.find? cwd below with
  | some node => exact hgrows.find? hfind
  | none =>
    rw [Option.eq_none_iff_forall_ne_some]
    intro node hnode
    obtain ⟨place, hresolve, hnode⟩ := find?_eq_some_iff.mp hnode
    obtain ⟨husable, hwalk⟩ := resolve_eq_ok_iff.mp hresolve
    rw [hpieces, horigin, hpath, walk_concat_eq_ok_iff hlast] at hwalk
    obtain ⟨parent, hwalk, -, rfl, -⟩ := hwalk
    obtain ⟨middle, hmiddle, hway⟩ := walk_append_eq_ok_iff.mp hwalk
    obtain rfl := Except.ok.inj ((hgrows.keeps.walk hknown).symm.trans hmiddle)
    have hparent := eq_append_names_of_walk hfresh hway
    -- What is found below the directory is not one of the directories that were made.
    have hsome : (t.node? (parent ++ [String.ofList last])).isSome = true := by
      rw [Option.isSome_iff_ne_none]
      intro hnone
      obtain ⟨-, hpre⟩ := hgrows.new _ node hnone hnode
      have hlength := hpre.length_le
      rw [← hparent, List.length_append, List.length_singleton] at hlength
      omega
    have hdirectory := hclosed parent _ hsome
    have hold := walk_append_eq_ok_iff.mpr ⟨here, hknown,
      hclosed.walk hfresh hway (isSome_of_isDirectoryAt hdirectory) fun _ => hdirectory⟩
    obtain ⟨node', hnode'⟩ := Option.isSome_iff_exists.mp hsome
    have hfound : t.find? cwd below = some node' := by
      refine find?_eq_some_iff.mpr ⟨_, resolve_eq_ok_iff.mpr ⟨husable, ?_⟩, hnode'⟩
      rw [hpieces, horigin, hpath, walk_concat_eq_ok_iff hlast]
      exact ⟨parent, hold, hdirectory, rfl, hsome⟩
    rw [hfind] at hfound
    cases hfound

/-- Two dots behind a missing directory lead on once it has been made. -/
example :
    find? ⟨[(["b"], .file [])]⟩ [] "a/../b" = none ∧
      find? (makeDirectories ⟨[(["b"], .file [])]⟩ [] "a/..").tree [] "a/../b" = some (.file []) := by
  decide

theorem IsDirect.join {base name : String} (h : t.IsDirect cwd base) (hname : IsName name.toList)
    (hslash : '/' ∉ name.toList) : t.IsDirect cwd (Path.join base name) := by
  obtain ⟨known, fresh, place, hpieces, hknown, hfresh⟩ := h
  obtain ⟨above, hjoin, hbase⟩ := pieces_join base hslash
  unfold IsDirect
  rw [hjoin, origin_join cwd base (isAbsolute_of_not_mem hslash)]
  have hdots : ∀ way : List (List Char), ['.', '.'] ∉ way → ['.', '.'] ∉ way ++ [name.toList] := by
    intro way hway hmem
    obtain hmem | hmem := List.mem_append.mp hmem
    · exact hway hmem
    · exact hname.ne_dots (List.mem_singleton.mp hmem).symm
  obtain rfl | heq := hbase
  · exact ⟨known, fresh ++ [name.toList], place, by rw [hpieces, List.append_assoc], hknown,
      hdots fresh hfresh⟩
  · rw [hpieces] at heq
    obtain rfl | ⟨way, slash, rfl⟩ := List.eq_nil_or_concat fresh
    · -- The slash at the end is on the way to what is there.
      rw [List.append_nil] at heq
      obtain ⟨middle, hmiddle, -⟩ := walk_append_eq_ok_iff.mp (heq ▸ hknown)
      exact ⟨above, [name.toList], middle, rfl, hmiddle, hdots [] List.not_mem_nil⟩
    · rw [List.concat_eq_append] at heq hfresh
      rw [← List.append_assoc] at heq
      obtain ⟨rfl, -⟩ := List.append_inj' heq rfl
      refine ⟨known, way ++ [name.toList], place, List.append_assoc .., hknown, hdots way ?_⟩
      exact fun hmem => hfresh (List.mem_append_left _ hmem)

end Tree

end SymbolSearch.Files
