import SymbolSearch.Proofs.Files.Directories

/-!
# The paths above a path

The paths above a path are listed at one reading of it, each a start of the path. They are the same
as one gets by going from parent to parent, for a start that drops a component is itself a path whose
components are those that are left.

## Main definitions

* `Path.above?` — the path so many parents up

## Main results

* `Path.parents_eq` — the paths above a path are its parent and the paths above that
* `Path.getElem?_ancestors` — the list of ancestors goes from parent to parent
* `Files.Tree.above?_pathOf` — the paths above the path of a place
-/

namespace SymbolSearch.Path

variable {taken piece s start last : List Char} {before : List (List Char)} {path : String}

/-- The starts of a path up to one that is not the last are the starts of that one. -/
theorem exists_startsFrom_eq_concat (h : startsFrom taken piece s = before ++ [start, last]) :
    ∃ read, start = taken.reverse ++ read ∧ startsFrom taken piece read = before ++ [start] := by
  induction s generalizing taken piece before with
  | nil =>
    -- There is at most one start.
    rw [startsFrom] at h
    have hlength := congrArg List.length h
    rw [List.length_append] at hlength
    split at hlength <;> simp at hlength
  | cons c s ih =>
    -- What is read later starts with the character at hand.
    have hlater : ∀ next before', startsFrom (c :: taken) next s = before' ++ [start, last] →
        ∃ read, start = taken.reverse ++ c :: read ∧
          startsFrom (c :: taken) next read = before' ++ [start] := by
      intro next before' heq
      obtain ⟨read, hstart, hread⟩ := ih heq
      exact ⟨read, by simpa using hstart, hread⟩
    rw [startsFrom] at h
    split at h
    · next hslash =>
      split at h
      · next hends =>
        cases before with
        | nil =>
          obtain ⟨rfl, -⟩ := List.cons.inj h
          exact ⟨[], (List.append_nil _).symm, if_pos hends⟩
        | cons first before =>
          obtain ⟨rfl, hrest⟩ := List.cons.inj h
          obtain ⟨read, hstart, hread⟩ := hlater [] before hrest
          exact ⟨c :: read, hstart, by rw [startsFrom, if_pos hslash, if_pos hends, hread]; rfl⟩
      · next hends =>
        obtain ⟨read, hstart, hread⟩ := hlater [] before h
        exact ⟨c :: read, hstart, by rw [startsFrom, if_pos hslash, if_neg hends, hread]⟩
    · next hslash =>
      obtain ⟨read, hstart, hread⟩ := hlater (c :: piece) before h
      exact ⟨c :: read, hstart, by rw [startsFrom, if_neg hslash, hread]⟩

theorem parents_of_startsFrom (h : startsFrom [] [] path.toList = before ++ [last]) :
    parents path = (before.map String.ofList).reverse ++ [top path] := by
  rw [parents, h, List.map_append, ← List.cons_append, List.map_singleton, List.dropLast_concat,
    List.reverse_cons]

theorem parents_top (path : String) : parents (top path) = [] := by
  rw [top]
  split <;> decide

theorem top_of_mem_startsFrom (hne : start ≠ []) (hmem : start ∈ startsFrom [] [] path.toList) :
    top (String.ofList start) = top path := by
  obtain ⟨c, start, rfl⟩ := List.exists_cons_of_ne_nil hne
  have hhead : path.toList.head? = some c := by
    obtain ⟨more, hmore, heq | ⟨rest, heq⟩⟩ := Files.exists_of_mem_startsFrom hmem
    all_goals
      rw [List.reverse_nil, List.nil_append] at hmore
      rw [heq, ← hmore]
      rfl
  rw [top, top, isAbsolute, isAbsolute, hhead, String.toList_ofList]
  rfl

/-- The paths above a path are its parent and the paths above that. -/
theorem parents_eq (path : String) : parents path = (parent? path).elim [] ancestors := by
  rw [parent?]
  obtain hnone | ⟨starts, last, hstarts⟩ := List.eq_nil_or_concat (startsFrom [] [] path.toList)
  · rw [parents, hnone]
    rfl
  · rw [List.concat_eq_append] at hstarts
    rw [parents_of_startsFrom hstarts]
    obtain rfl | ⟨before, start, rfl⟩ := List.eq_nil_or_concat starts
    · -- A single component is dropped.
      exact (congrArg (top path :: ·) (parents_top path)).symm
    · rw [List.concat_eq_append] at hstarts ⊢
      rw [List.append_assoc, List.singleton_append] at hstarts
      obtain ⟨read, hread, hstart⟩ := exists_startsFrom_eq_concat hstarts
      obtain rfl : start = read := hread
      have hne : start ≠ [] := by
        rintro rfl
        exact absurd hstart (by simp [startsFrom, endsComponent, isComponent])
      have hmem : start ∈ startsFrom [] [] path.toList := by simp [hstarts]
      have htop := top_of_mem_startsFrom hne hmem
      have hparents : parents (String.ofList start) =
          (before.map String.ofList).reverse ++ [top path] := by
        rw [← htop]
        exact parents_of_startsFrom (by rw [String.toList_ofList, hstart])
      rw [List.map_append, List.map_singleton, List.reverse_concat, List.cons_append,
        List.head?_cons, Option.elim_some, ancestors, hparents]

/-- The path that drops the last `i` components of a path. -/
def above? : Nat → String → Option String
  | 0, path => some path
  | i + 1, path => (parent? path).bind (above? i)

theorem getElem?_ancestors (path : String) (i : Nat) : (ancestors path)[i]? = above? i path := by
  induction i generalizing path with
  | zero => rfl
  | succ i ih =>
    rw [ancestors, List.getElem?_cons_succ, parents_eq, above?]
    cases parent? path with
    | none => rfl
    | some up => exact ih up

/-! ### The path of a place -/

variable {name : List Char}

theorem isComponent_reverse (s : List Char) : isComponent s.reverse = isComponent s := by
  have hdot : (s.reverse == ['.']) = (s == ['.']) := by
    rw [Bool.eq_iff_iff, beq_iff_eq, beq_iff_eq, List.reverse_eq_iff]
    rfl
  rw [isComponent, isComponent, List.isEmpty_reverse, bne, bne, hdot]

theorem startsFrom_of_not_mem (hslash : '/' ∉ s) :
    startsFrom taken piece s =
      if endsComponent (s.reverse ++ taken) (s.reverse ++ piece) then [taken.reverse ++ s]
      else [] := by
  induction s generalizing taken piece with
  | nil => simp [startsFrom]
  | cons c s ih =>
    rw [List.mem_cons, not_or] at hslash
    rw [startsFrom, if_neg (Ne.symm hslash.1), ih hslash.2]
    simp

/-- A name behind a slash adds one start. -/
theorem startsFrom_append_name (hslash : '/' ∉ name) (hname : isComponent name = true) :
    startsFrom taken piece (s ++ '/' :: name) =
      startsFrom taken piece s ++ [taken.reverse ++ s ++ '/' :: name] := by
  induction s generalizing taken piece with
  | nil =>
    -- The slash ends the piece at hand, which may be no component; the name is one.
    have hends : endsComponent (name.reverse ++ '/' :: taken) (name.reverse ++ []) = true := by
      rw [endsComponent, List.append_nil, isComponent_reverse, hname, Bool.true_or]
    rw [List.nil_append, startsFrom, startsFrom, if_pos rfl, startsFrom_of_not_mem hslash,
      if_pos hends]
    split <;> simp
  | cons c s ih =>
    rw [List.cons_append, startsFrom, startsFrom, ih, ih]
    split
    · split <;> simp
    · simp

end SymbolSearch.Path

namespace SymbolSearch.Files.Tree

variable {place : Location} {name : String}

theorem toList_pathOf_concat (place : Location) (name : String) :
    (pathOf (place ++ [name])).toList =
      (if place = [] then [] else (pathOf place).toList) ++ '/' :: name.toList := by
  have hslash : "/".toList = ['/'] := by decide
  split
  · next h => simp [h, pathOf, hslash]
  · next h =>
    rw [pathOf, String.intercalate_append_of_ne_nil h (by simp), String.intercalate_singleton]
    simp [pathOf, hslash]

theorem top_pathOf (place : Location) : Path.top (pathOf place) = "/" := by
  have habsolute : Path.isAbsolute (pathOf place) = true := by
    rw [Path.isAbsolute, pathOf, String.toList_append]
    rfl
  rw [Path.top, if_pos habsolute]

theorem startsFrom_pathOf_concat (hname : IsName name.toList) (hslash : '/' ∉ name.toList) :
    Path.startsFrom [] [] (pathOf (place ++ [name])).toList =
      (if place = [] then [] else Path.startsFrom [] [] (pathOf place).toList) ++
        [(pathOf (place ++ [name])).toList] := by
  rw [toList_pathOf_concat, Path.startsFrom_append_name hslash hname.isComponent]
  split <;> rfl

/-- The path above the path of a place is the path of the directory that the place lies in. -/
theorem parent?_pathOf
    (hnames : ∀ other ∈ place ++ [name], IsName other.toList ∧ '/' ∉ other.toList) :
    Path.parent? (pathOf (place ++ [name])) = some (pathOf place) := by
  -- The last start but one is the path of the directory, unless this is the root.
  obtain ⟨hname, hslash⟩ := hnames name (by simp)
  rw [Path.parent?, Path.parents_of_startsFrom (startsFrom_pathOf_concat hname hslash), top_pathOf]
  obtain rfl | ⟨above, last, rfl⟩ := List.eq_nil_or_concat place
  · rfl
  · rw [List.concat_eq_append] at hnames ⊢
    obtain ⟨hlast, hslash'⟩ := hnames last (by simp)
    rw [if_neg (by simp), startsFrom_pathOf_concat hlast hslash', List.map_append,
      List.map_singleton, String.ofList_toList, List.reverse_concat, List.cons_append,
      List.head?_cons]

/-- The paths above the path of a place lead to the places on the way to it. -/
theorem above?_pathOf (hnames : ∀ name ∈ place, IsName name.toList ∧ '/' ∉ name.toList) (i : Nat) :
    Path.above? i (pathOf place) =
      if i ≤ place.length then some (pathOf (place.take (place.length - i))) else none := by
  induction i generalizing place with
  | zero => simp [Path.above?]
  | succ i ih =>
    rw [Path.above?]
    obtain rfl | ⟨above, name, rfl⟩ := List.eq_nil_or_concat place
    · rfl
    · rw [List.concat_eq_append] at hnames ⊢
      have habove := fun other hother => hnames other (List.mem_append_left _ hother)
      rw [parent?_pathOf hnames, Option.bind_some, ih habove]
      simp [List.take_append_of_le_length]

end SymbolSearch.Files.Tree
