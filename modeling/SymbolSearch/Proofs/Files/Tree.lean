import SymbolSearch.Files.Tree
import SymbolSearch.Proofs.Text.Pieces

/-!
# Following paths

A path is followed piece by piece. What a path leads to can only be lost when something on its way is
taken away, so a tree that keeps its directories keeps all ways, and a file that was written is found
under the path that it was written to.

## Main definitions

* `Files.Tree.Step` — one piece of a path leads from a place to another
* `Files.Tree.Keeps` — a tree has directories where another has them
* `Files.IsUsable` — paths that can be looked up

## Main results

* `Files.Tree.walk_cons_eq_ok_iff` — following a piece and then the others
* `Files.Tree.Keeps.walk` — ways that are kept
* `Files.Tree.find?_write` — a written file is found
-/

namespace SymbolSearch.Files

/-- The pieces of a path between its slashes. -/
abbrev pieces (path : String) : List (List Char) := Text.splitOn '/' path.toList

/-- A path has a last piece, behind which only slashes stand. -/
def EndsWith (path : String) (above : List (List Char)) (last : List Char) : Prop :=
  ∃ slashes, pieces path = above ++ [last] ++ slashes ∧ ∀ piece ∈ slashes, piece = []

/-- A piece of a path that names something in a directory. -/
structure IsName (piece : List Char) : Prop where
  isComponent : Path.isComponent piece = true
  ne_dots : piece ≠ ['.', '.']
  not_tooLong : Path.isNameTooLong (String.ofList piece) = false

instance (piece : List Char) : Decidable (IsName piece) :=
  decidable_of_iff
    (Path.isComponent piece = true ∧ piece ≠ ['.', '.'] ∧
      Path.isNameTooLong (String.ofList piece) = false)
    ⟨fun h => ⟨h.1, h.2.1, h.2.2⟩, fun h => ⟨h.isComponent, h.ne_dots, h.not_tooLong⟩⟩

theorem IsName.ne_nil {piece : List Char} (h : IsName piece) : piece ≠ [] := by
  rintro rfl
  exact Bool.false_ne_true h.isComponent

/-- A path with a name in it is not empty. -/
theorem IsName.isEmpty_eq_false {path : String} {piece : List Char} (h : IsName piece)
    (hmem : piece ∈ pieces path) : path.isEmpty = false := by
  rw [Bool.eq_false_iff]
  intro hempty
  rw [String.isEmpty_iff.mp hempty] at hmem
  exact h.ne_nil (List.mem_singleton.mp hmem)

/-- A path without a slash at its end has one last piece. -/
theorem EndsWith.eq {path : String} {above above' : List (List Char)} {last last' : List Char}
    (h : EndsWith path above' last') (hpieces : pieces path = above ++ [last]) (hlast : last ≠ []) :
    above' = above ∧ last' = last := by
  obtain ⟨slashes, heq, hslashes⟩ := h
  obtain rfl | ⟨slashes, slash, rfl⟩ := List.eq_nil_or_concat slashes
  · rw [hpieces, List.append_nil] at heq
    obtain ⟨rfl, hlast'⟩ := List.append_inj' heq rfl
    exact ⟨rfl, (List.cons.inj hlast').1.symm⟩
  · rw [hpieces, List.concat_eq_append, ← List.append_assoc] at heq
    have hslash := List.cons.inj (List.append_inj' heq rfl).2
    exact absurd (hslash.1.trans (hslashes slash (by simp))) hlast

namespace Tree

variable {t t' : Tree} {here next place start : Location} {piece last : List Char}
  {above rest : List (List Char)} {cwd : Location} {path : String} {bytes : List UInt8}

/-! ### Pieces -/

/-- A piece leads from a directory to a place: nowhere else, to the directory above, or to something
with its name. -/
inductive Step (t : Tree) (here : Location) (piece : List Char) : Location → Prop where
  | stay (h : Path.isComponent piece = false) : Step t here piece here
  | up (h : piece = ['.', '.']) : Step t here piece here.dropLast
  | down (hname : IsName piece) (hnode : (t.node? (here ++ [String.ofList piece])).isSome = true) :
      Step t here piece (here ++ [String.ofList piece])

theorem walk_cons_eq_ok_iff :
    t.walk here (piece :: rest) = .ok place ↔
      t.isDirectoryAt here = true ∧
        ∃ next, t.Step here piece next ∧ t.walk next rest = .ok place := by
  rw [walk]
  constructor
  · intro h
    split at h
    · cases h
    · next hhere =>
      refine ⟨by simpa using hhere, ?_⟩
      split at h
      · next hstay => exact ⟨here, .stay (by simpa using hstay), h⟩
      · next hcomponent =>
        split at h
        · next hup => exact ⟨here.dropLast, .up hup, h⟩
        · next hdots =>
          split at h
          · cases h
          · next hlong =>
            have hname : IsName piece := ⟨by simpa using hcomponent, hdots, by simpa using hlong⟩
            cases hnode : t.node? (here ++ [String.ofList piece]) with
            | none =>
              simp only [hnode] at h
              cases h
            | some node =>
              simp only [hnode] at h
              exact ⟨_, .down hname (by rw [hnode]; rfl), h⟩
  · rintro ⟨hhere, next, hstep, hrest⟩
    rw [hhere, Bool.not_true, if_neg Bool.false_ne_true]
    cases hstep with
    | stay h => rw [h, Bool.not_false, if_pos rfl, hrest]
    | up h =>
      subst h
      rw [if_neg (by decide), if_pos rfl, hrest]
    | down hname hnode =>
      obtain ⟨node, hnode⟩ := Option.isSome_iff_exists.mp hnode
      rw [hname.isComponent, Bool.not_true, if_neg Bool.false_ne_true, if_neg hname.ne_dots,
        hname.not_tooLong, if_neg Bool.false_ne_true]
      simp only [hnode, hrest]

theorem walk_append_eq_ok_iff :
    t.walk here (above ++ rest) = .ok place ↔
      ∃ middle, t.walk here above = .ok middle ∧ t.walk middle rest = .ok place := by
  induction above generalizing here with
  | nil => simp [walk]
  | cons piece above ih =>
    rw [List.cons_append]
    simp only [walk_cons_eq_ok_iff, ih]
    constructor
    · rintro ⟨hhere, next, hstep, middle, habove, hrest⟩
      exact ⟨middle, ⟨hhere, next, hstep, habove⟩, hrest⟩
    · rintro ⟨middle, ⟨hhere, next, hstep, habove⟩, hrest⟩
      exact ⟨hhere, next, hstep, middle, habove, hrest⟩

/-- A way that ends with a name ends at something of that name in a directory. -/
theorem walk_concat_eq_ok_iff (hlast : IsName last) :
    t.walk here (above ++ [last]) = .ok place ↔
      ∃ parent, t.walk here above = .ok parent ∧ t.isDirectoryAt parent = true ∧
        place = parent ++ [String.ofList last] ∧ (t.node? place).isSome = true := by
  rw [walk_append_eq_ok_iff]
  refine exists_congr fun parent => and_congr_right fun _ => ?_
  rw [walk_cons_eq_ok_iff]
  refine and_congr_right fun _ => ?_
  constructor
  · rintro ⟨next, hstep, hplace⟩
    rw [walk, Except.ok.injEq] at hplace
    subst hplace
    cases hstep with
    | stay h => exact absurd (h.symm.trans hlast.isComponent) Bool.false_ne_true
    | up h => exact absurd h hlast.ne_dots
    | down _ hnode => exact ⟨rfl, hnode⟩
  · rintro ⟨rfl, hnode⟩
    exact ⟨_, .down hlast hnode, rfl⟩

/-! ### Ways that are kept -/

/-- A tree has something wherever another has something, and a directory wherever that has one. -/
structure Keeps (t t' : Tree) : Prop where
  isDirectoryAt : ∀ place, t.isDirectoryAt place = true → t'.isDirectoryAt place = true
  isSome : ∀ place, (t.node? place).isSome = true → (t'.node? place).isSome = true

theorem Keeps.step (h : Keeps t t') (hstep : t.Step here piece next) : t'.Step here piece next := by
  cases hstep with
  | stay hstay => exact .stay hstay
  | up hup => exact .up hup
  | down hname hnode => exact .down hname (h.isSome _ hnode)

theorem Keeps.walk (h : Keeps t t') {pieces : List (List Char)}
    (hwalk : t.walk here pieces = .ok place) : t'.walk here pieces = .ok place := by
  induction pieces generalizing here with
  | nil => exact hwalk
  | cons piece pieces ih =>
    obtain ⟨hhere, next, hstep, hrest⟩ := walk_cons_eq_ok_iff.mp hwalk
    exact walk_cons_eq_ok_iff.mpr ⟨h.isDirectoryAt here hhere, next, h.step hstep, ih hrest⟩

/-- A file in place of anything but a directory is in the way of nothing. -/
theorem keeps_put_file (hplace : t.isDirectoryAt place = false) (bytes : List UInt8) :
    Keeps t (t.put place (.file bytes)) where
  isDirectoryAt other hother := by
    have hne : other ≠ place := by
      rintro rfl
      exact Bool.false_ne_true (hplace.symm.trans hother)
    rw [Tree.isDirectoryAt, node?_put_of_ne t hne]
    exact hother
  isSome other hother := by
    by_cases heq : other = place
    · subst heq
      have hne : other ≠ [] := by
        rintro rfl
        exact Bool.false_ne_true (hplace.symm.trans rfl)
      rw [node?_put_self t hne]
      rfl
    · rw [node?_put_of_ne t heq]
      exact hother

end Tree

/-! ### Paths -/

/-- A path that can be looked up. -/
structure IsUsable (path : String) : Prop where
  not_hasNul : Path.hasNul path = false
  not_tooLong : Path.isTooLong path = false
  not_isEmpty : path.isEmpty = false

namespace Tree

variable {t t' : Tree} {place : Location} {last : List Char}
  {above : List (List Char)} {cwd : Location} {path : String} {bytes : List UInt8}

theorem pathFault?_eq_none_iff :
    pathFault? path = none ↔ Path.hasNul path = false ∧ Path.isTooLong path = false := by
  unfold pathFault?
  split <;> simp_all

theorem follow_eq_ok_iff :
    t.follow cwd path = .ok place ↔
      Path.hasNul path = false ∧ path.isEmpty = false ∧
        t.walk (origin cwd path) (pieces path) = .ok place := by
  unfold follow
  split
  · simp_all
  · split <;> simp_all

theorem resolve_eq_ok_iff :
    t.resolve cwd path = .ok place ↔
      IsUsable path ∧ t.walk (origin cwd path) (pieces path) = .ok place := by
  unfold resolve
  split
  · next fault hfault =>
    refine iff_of_false nofun fun h => ?_
    rw [pathFault?_eq_none_iff.mpr ⟨h.1.not_hasNul, h.1.not_tooLong⟩] at hfault
    cases hfault
  · next hfault =>
    obtain ⟨hnul, hlong⟩ := pathFault?_eq_none_iff.mp hfault
    rw [follow_eq_ok_iff]
    exact ⟨fun h => ⟨⟨hnul, hlong, h.2.1⟩, h.2.2⟩, fun h => ⟨hnul, h.1.not_isEmpty, h.2⟩⟩

theorem find?_eq_some_iff {node : Node} :
    t.find? cwd path = some node ↔
      ∃ place, t.resolve cwd path = .ok place ∧ t.node? place = some node := by
  unfold find?
  cases t.resolve cwd path <;> simp

theorem isFile_iff : t.isFile cwd path = true ↔ ∃ bytes, t.find? cwd path = some (.file bytes) := by
  unfold isFile
  split <;> simp_all

theorem read_of_find? {node : Node} (h : t.find? cwd path = some node) :
    t.read cwd path =
      match node with
      | .file bytes => .ok bytes
      | .directory => .error .isDirectory := by
  obtain ⟨place, hresolve, hnode⟩ := find?_eq_some_iff.mp h
  rw [read, hresolve]
  simp only [bind, Except.bind, hnode]
  cases node <;> rfl

/-- What a path leads to is not lost when the tree keeps all ways, though it may be changed. -/
theorem Keeps.resolve (h : Keeps t t') (hresolve : t.resolve cwd path = .ok place) :
    t'.resolve cwd path = .ok place := by
  obtain ⟨husable, hwalk⟩ := resolve_eq_ok_iff.mp hresolve
  exact resolve_eq_ok_iff.mpr ⟨husable, h.walk hwalk⟩

/-! ### New places -/

theorem placeBelow_eq_ok {start : Location} (h : t.placeBelow start above last = .ok place)
    (hlast : last ≠ []) :
    IsName last ∧ ∃ parent, t.walk start above = .ok parent ∧ t.isDirectoryAt parent = true ∧
      place = parent ++ [String.ofList last] := by
  unfold placeBelow at h
  cases hwalk : t.walk start above with
  | error fault =>
    rw [hwalk] at h
    cases h
  | ok parent =>
    rw [hwalk] at h
    simp only [bind, Except.bind] at h
    split at h
    · cases h
    · next hparent =>
      split at h
      · cases h
      · next hdots =>
        split at h
        · cases h
        · next hlong =>
          simp only [Bool.or_eq_true, decide_eq_true_eq, not_or] at hdots
          have hname : IsName last :=
            ⟨by simp [Path.isComponent, hlast, hdots.1], hdots.2, by simpa using hlong⟩
          exact ⟨hname, parent, rfl, by simpa using hparent, (Except.ok.inj h).symm⟩

/-- Something can be made at a place: the place is vacant, and lies in the directory that a path
leads to without its last piece. -/
theorem newPlace_eq_ok (h : t.newPlace cwd path = .ok place) :
    pathFault? path = none ∧ ∃ above last, EndsWith path above last ∧ IsName last ∧
      ∃ parent, t.walk (origin cwd path) above = .ok parent ∧ t.isDirectoryAt parent = true ∧
        place = parent ++ [String.ofList last] ∧ t.node? place = none := by
  unfold newPlace at h
  split at h
  · cases h
  · next hfine =>
    refine ⟨hfine, ?_⟩
    split at h
    · split at h <;> cases h
    · next last above hpieces =>
      split at h
      · cases h
      · next fault hfault =>
        have hlast : last ≠ [] := by
          have hhead := List.head?_dropWhile_not List.isEmpty (pieces path).reverse
          rw [hpieces] at hhead
          simpa using hhead
        have hends : EndsWith path above.reverse last := by
          refine ⟨((pieces path).reverse.takeWhile List.isEmpty).reverse, ?_, ?_⟩
          · have happend :=
              List.takeWhile_append_dropWhile (p := List.isEmpty) (l := (pieces path).reverse)
            rw [hpieces] at happend
            simpa using (congrArg List.reverse happend).symm
          · intro piece hpiece
            simpa using List.all_eq_true.mp List.all_takeWhile piece (List.mem_reverse.mp hpiece)
        obtain ⟨hname, parent, hwalk, hparent, rfl⟩ := placeBelow_eq_ok h hlast
        refine ⟨above.reverse, last, hends, hname, parent, hwalk, hparent, rfl, ?_⟩
        -- Were something there, the whole path would lead to it.
        rw [← Option.not_isSome_iff_eq_none]
        intro hnode
        have hsome := (walk_concat_eq_ok_iff hname).mpr ⟨parent, hwalk, hparent, rfl, hnode⟩
        rw [List.reverse_cons, hsome] at hfault
        cases hfault

/-! ### Writing -/

/-- The place of a file to be written is below the directory that its path leads to without the last
piece, and holds no directory. -/
theorem filePlace_eq_ok (hpieces : pieces path = above ++ [last]) (hlast : IsName last)
    (h : t.filePlace cwd path = .ok place) :
    IsUsable path ∧ t.isDirectoryAt place = false ∧
      ∃ parent, t.walk (origin cwd path) above = .ok parent ∧ t.isDirectoryAt parent = true ∧
        place = parent ++ [String.ofList last] := by
  unfold filePlace at h
  split at h
  · next found hresolve =>
    obtain ⟨husable, hwalk⟩ := resolve_eq_ok_iff.mp hresolve
    rw [hpieces, walk_concat_eq_ok_iff hlast] at hwalk
    obtain ⟨parent, hwalk, hparent, heq, -⟩ := hwalk
    split at h
    · cases h
    · next hdirectory =>
      obtain rfl := Except.ok.inj h
      exact ⟨husable, by simpa using hdirectory, parent, hwalk, hparent, heq⟩
  · split at h
    · cases h
    · obtain ⟨hfine, above', last', hends, -, parent, hwalk, hparent, rfl, hnode⟩ := newPlace_eq_ok h
      obtain ⟨rfl, rfl⟩ := hends.eq hpieces hlast.ne_nil
      obtain ⟨hnul, hlong⟩ := pathFault?_eq_none_iff.mp hfine
      have husable : IsUsable path := ⟨hnul, hlong, hlast.isEmpty_eq_false (by simp [hpieces])⟩
      refine ⟨husable, ?_, parent, hwalk, hparent, rfl⟩
      rw [isDirectoryAt, hnode]
      rfl
  · cases h

/-- A file that was written at a path that ends with a name is found there. -/
theorem find?_write (hpieces : pieces path = above ++ [last]) (hlast : IsName last)
    (h : t.write cwd path bytes = .ok t') : t'.find? cwd path = some (.file bytes) := by
  cases hplace : t.filePlace cwd path with
  | error fault =>
    rw [write, hplace] at h
    cases h
  | ok place =>
    rw [write, hplace] at h
    obtain rfl := Except.ok.inj h
    obtain ⟨husable, hdirectory, parent, hwalk, hparent, rfl⟩ := filePlace_eq_ok hpieces hlast hplace
    have hkeeps := keeps_put_file hdirectory bytes
    have hnode := node?_put_self t (List.concat_ne_nil _ _ : parent ++ [String.ofList last] ≠ [])
      (.file bytes)
    rw [find?_eq_some_iff]
    refine ⟨_, resolve_eq_ok_iff.mpr ⟨husable, ?_⟩, hnode⟩
    rw [hpieces, walk_concat_eq_ok_iff hlast]
    exact ⟨parent, hkeeps.walk hwalk, hkeeps.isDirectoryAt parent hparent, rfl, by rw [hnode]; rfl⟩

/-- A file that is there can be written anew. -/
theorem exists_write_eq_ok {before : List UInt8} (h : t.find? cwd path = some (.file before))
    (bytes : List UInt8) : ∃ t', t.write cwd path bytes = .ok t' := by
  obtain ⟨place, hresolve, hnode⟩ := find?_eq_some_iff.mp h
  have hplace : t.filePlace cwd path = .ok place := by
    simp only [filePlace, hresolve, isDirectoryAt, hnode]
    rfl
  rw [write, hplace]
  exact ⟨_, rfl⟩

end Tree

end SymbolSearch.Files
