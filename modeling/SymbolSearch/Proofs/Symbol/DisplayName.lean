import Mathlib.Data.List.Basic
import SymbolSearch.Proofs.Symbol.Chain

/-!
# The short name of a chain

The short name is a piece of its chain between two delimiters: the link marker before it and the
marker behind it. It is told without a search by what stands around it. Nothing stands before the
short name of a chain that has no link marker, or that ends in one; such a chain may keep link
markers inside its short name, as `A#B#` does. Each of the two steps that find the name has a
relation of its own, and the two relations together are the delimited piece.

## Main definitions

* `Descriptor.LinkAt` — a chain divided before its last link
* `Descriptor.Marked` — a text divided before the marker at its end
* `Descriptor.Delimited` — a chain divided around its short name

## Main results

* `Descriptor.LinkAt.lastLink_eq`, `Descriptor.Marked.dropMarker_eq` — the divisions give what the
  two steps return
* `Descriptor.delimited_iff` — a delimited piece is a last link without its marker
* `Descriptor.displayNameOf_eq_iff_and_parse_pieces` — the short name is the delimited piece of its
  chain, and the chain is the end of its symbol
-/

namespace SymbolSearch.Descriptor

variable {marks chain before link text name marker : List Char}

/-! ### The end of a text -/

/-- The last character of the text is one of `marks`. -/
def EndsIn (marks text : List Char) : Prop := ∃ c ∈ marks, text.getLast? = some c

@[simp] theorem endsIn_concat {c : Char} : EndsIn marks (text ++ [c]) ↔ c ∈ marks := by
  simp [EndsIn]

/-- A text ends as its part does that stands last, if that part is not empty. -/
theorem endsIn_append (h : text ≠ []) : EndsIn marks (before ++ text) ↔ EndsIn marks text := by
  obtain ⟨front, c, rfl⟩ := (List.eq_nil_or_concat' text).resolve_left h
  rw [← List.append_assoc, endsIn_concat, endsIn_concat]

theorem EndsIn.exists_eq (h : EndsIn marks text) : ∃ c ∈ marks, ∃ front, text = front ++ [c] := by
  obtain ⟨c, hc, hlast⟩ := h
  exact ⟨c, hc, List.getLast?_eq_some_iff.mp hlast⟩

theorem EndsIn.not_disjoint (h : EndsIn marks text) : ¬ text.Disjoint marks := by
  obtain ⟨c, hc, front, rfl⟩ := h.exists_eq
  exact fun hdisjoint => hdisjoint (by simp) hc

/-! ### The last link -/

theorem isLink_iff {c : Char} : isLink c = true ↔ c ∈ ['#', '/'] := by
  simp [isLink]

theorem forall_isLink_eq_false_iff :
    (∀ c ∈ text, isLink c = false) ↔ text.Disjoint ['#', '/'] := by
  simp only [← Bool.not_eq_true, isLink_iff]
  rfl

/-- A chain divided before its last link. The link is the whole chain if the chain has no link
marker or ends in one. -/
structure LinkAt (chain before link : List Char) : Prop where
  eq : chain = before ++ link
  before_ends : before = [] ∨ EndsIn ['#', '/'] before
  disjoint : before ≠ [] → link.Disjoint ['#', '/']
  before_eq_nil_iff : before = [] ↔ chain.Disjoint ['#', '/'] ∨ EndsIn ['#', '/'] chain

theorem linkAt_self (h : chain.Disjoint ['#', '/'] ∨ EndsIn ['#', '/'] chain) :
    LinkAt chain [] chain where
  eq := rfl
  before_ends := .inl rfl
  disjoint := absurd rfl
  before_eq_nil_iff := iff_of_true rfl h

theorem linkAt_append_cons {c : Char} (before : List Char) (hc : c ∈ ['#', '/']) (hne : link ≠ [])
    (hlink : link.Disjoint ['#', '/']) : LinkAt (before ++ c :: link) (before ++ [c]) link where
  eq := List.append_cons before c link
  before_ends := .inr (endsIn_concat.mpr hc)
  disjoint := fun _ => hlink
  before_eq_nil_iff := by
    refine iff_of_false (by simp) ?_
    rintro (hdisjoint | hends)
    · exact hdisjoint (by simp) hc
    · rw [List.append_cons, endsIn_append hne] at hends
      exact hends.not_disjoint hlink

theorem exists_linkAt_lastLink (chain : List Char) :
    ∃ before, LinkAt chain before (lastLink chain) := by
  unfold lastLink
  cases h : Text.afterLast? isLink chain with
  | none =>
    refine ⟨[], linkAt_self (.inl ?_)⟩
    exact forall_isLink_eq_false_iff.mp (Text.afterLast?_eq_none_iff.mp h)
  | some rest =>
    obtain ⟨before, c, rfl, hc, hrest⟩ := Text.afterLast?_eq_some_iff.mp h
    rw [isLink_iff] at hc
    cases rest with
    | nil => exact ⟨[], linkAt_self (.inr (endsIn_concat.mpr hc))⟩
    | cons d rest =>
      refine ⟨before ++ [c], linkAt_append_cons before hc (List.cons_ne_nil d rest) ?_⟩
      exact forall_isLink_eq_false_iff.mp hrest

/-- Something follows the link marker before a link: otherwise the chain would end in that marker
and be taken whole. -/
theorem LinkAt.link_ne_nil (h : LinkAt chain before link) (hne : before ≠ []) : link ≠ [] := by
  rintro rfl
  have hends : EndsIn ['#', '/'] before := h.before_ends.resolve_left hne
  have heq : chain = before := by rw [h.eq, List.append_nil]
  exact hne (h.before_eq_nil_iff.mpr (.inr (heq ▸ hends)))

theorem LinkAt.endsIn_iff (h : LinkAt chain before link) :
    EndsIn marks chain ↔ EndsIn marks link := by
  rw [h.eq]
  by_cases hne : before = []
  · rw [hne, List.nil_append]
  · exact endsIn_append (h.link_ne_nil hne)

theorem LinkAt.lastLink_eq (h : LinkAt chain before link) : lastLink chain = link := by
  unfold lastLink
  rcases h.before_ends with rfl | hends
  · -- A chain taken whole has no link marker, or its last one at the end.
    rw [← List.nil_append link, ← h.eq]
    rcases h.before_eq_nil_iff.mp rfl with hdisjoint | hends
    · rw [Text.afterLast?_eq_none_iff.mpr (forall_isLink_eq_false_iff.mpr hdisjoint)]
    · obtain ⟨c, hc, front, rfl⟩ := hends.exists_eq
      rw [Text.afterLast?_append_cons front (isLink_iff.mpr hc) (by simp)]
  · obtain ⟨c, hc, front, rfl⟩ := hends.exists_eq
    have hne : front ++ [c] ≠ [] := by simp
    have hlink := forall_isLink_eq_false_iff.mpr (h.disjoint hne)
    obtain ⟨d, rest, rfl⟩ := List.exists_cons_of_ne_nil (h.link_ne_nil hne)
    rw [h.eq, ← List.append_cons, Text.afterLast?_append_cons front (isLink_iff.mpr hc) hlink]

/-! ### The marker behind a name -/

theorem isMarker_iff {c : Char} : isMarker c = true ↔ c ∈ ['#', '.', '/'] := by
  simp [isMarker, or_assoc]

/-- A text divided before the one marker at its end, or not at all if it ends in no marker. -/
structure Marked (text name marker : List Char) : Prop where
  eq : text = name ++ marker
  marker_mem : marker ∈ [[], ['#'], ['.'], ['/']]
  not_endsIn : marker = [] → ¬ EndsIn ['#', '.', '/'] text

theorem mem_markers_iff :
    marker ∈ [[], ['#'], ['.'], ['/']] ↔ marker = [] ∨ ∃ c ∈ ['#', '.', '/'], marker = [c] := by
  simp

theorem dropMarker_concat {c : Char} (h : c ∈ ['#', '.', '/']) :
    dropMarker (name ++ [c]) = name := by
  rw [dropMarker, List.getLast?_concat]
  exact (if_pos (isMarker_iff.mpr h)).trans List.dropLast_concat

theorem dropMarker_eq_self (h : ¬ EndsIn ['#', '.', '/'] text) : dropMarker text = text := by
  unfold dropMarker
  split
  · next c hc => exact if_neg fun hmarker => h ⟨c, isMarker_iff.mp hmarker, hc⟩
  · rfl

theorem exists_marked_dropMarker (text : List Char) :
    ∃ marker, Marked text (dropMarker text) marker := by
  by_cases h : EndsIn ['#', '.', '/'] text
  · obtain ⟨c, hc, name, rfl⟩ := h.exists_eq
    rw [dropMarker_concat hc]
    exact ⟨[c], rfl, mem_markers_iff.mpr (.inr ⟨c, hc, rfl⟩), fun hnil => absurd hnil (by simp)⟩
  · rw [dropMarker_eq_self h]
    exact ⟨[], (List.append_nil text).symm, List.mem_cons_self, fun _ => h⟩

theorem Marked.dropMarker_eq (h : Marked text name marker) : dropMarker text = name := by
  rcases mem_markers_iff.mp h.marker_mem with rfl | ⟨c, hc, rfl⟩
  · rw [dropMarker_eq_self (h.not_endsIn rfl), h.eq, List.append_nil]
  · rw [h.eq, dropMarker_concat hc]

/-! ### The delimited piece -/

/-- A chain divided around its short name. What stands before the name ends in a link marker, and
the name then has none; what stands behind it is the marker at the end of the chain. -/
structure Delimited (chain before name marker : List Char) : Prop where
  eq : chain = before ++ name ++ marker
  marker_mem : marker ∈ [[], ['#'], ['.'], ['/']]
  before_ends : before = [] ∨ EndsIn ['#', '/'] before
  name_disjoint : before ≠ [] → name.Disjoint ['#', '/']
  before_eq_nil_iff : before = [] ↔ chain.Disjoint ['#', '/'] ∨ EndsIn ['#', '/'] chain
  not_endsIn : marker = [] → ¬ EndsIn ['#', '.', '/'] chain

theorem LinkAt.delimited (hlink : LinkAt chain before link) (hmarked : Marked link name marker) :
    Delimited chain before name marker where
  eq := by rw [hlink.eq, hmarked.eq, List.append_assoc]
  marker_mem := hmarked.marker_mem
  before_ends := hlink.before_ends
  name_disjoint := by
    intro hne
    have hdisjoint := hlink.disjoint hne
    rw [hmarked.eq, List.disjoint_append_left] at hdisjoint
    exact hdisjoint.1
  before_eq_nil_iff := hlink.before_eq_nil_iff
  not_endsIn := fun hnil hends => hmarked.not_endsIn hnil (hlink.endsIn_iff.mp hends)

theorem Delimited.linkAt (h : Delimited chain before name marker) :
    LinkAt chain before (name ++ marker) where
  eq := by rw [h.eq, List.append_assoc]
  before_ends := h.before_ends
  disjoint := by
    intro hne
    refine List.disjoint_append_left.mpr ⟨h.name_disjoint hne, ?_⟩
    rcases mem_markers_iff.mp h.marker_mem with rfl | ⟨c, -, rfl⟩
    · exact List.disjoint_nil_left _
    · -- A chain that ends in a link marker has nothing before its name.
      rw [List.singleton_disjoint]
      intro hc
      refine hne (h.before_eq_nil_iff.mpr (.inr ?_))
      rw [h.eq]
      exact endsIn_concat.mpr hc
  before_eq_nil_iff := h.before_eq_nil_iff

theorem Delimited.marked (h : Delimited chain before name marker) :
    Marked (name ++ marker) name marker where
  eq := rfl
  marker_mem := h.marker_mem
  not_endsIn := fun hnil hends => h.not_endsIn hnil (h.linkAt.endsIn_iff.mpr hends)

theorem delimited_iff :
    Delimited chain before name marker ↔
      ∃ link, LinkAt chain before link ∧ Marked link name marker := by
  constructor
  · intro h
    exact ⟨name ++ marker, h.linkAt, h.marked⟩
  · rintro ⟨link, hlink, hmarked⟩
    exact hlink.delimited hmarked

theorem displayNameOf_eq_iff :
    displayNameOf chain = name ↔ ∃ before marker, Delimited chain before name marker := by
  simp only [delimited_iff]
  constructor
  · rintro rfl
    obtain ⟨before, hlink⟩ := exists_linkAt_lastLink chain
    obtain ⟨marker, hmarked⟩ := exists_marked_dropMarker (lastLink chain)
    exact ⟨before, marker, lastLink chain, hlink, hmarked⟩
  · rintro ⟨before, marker, link, hlink, hmarked⟩
    rw [displayNameOf, hlink.lastLink_eq, hmarked.dropMarker_eq]

-- A link marker at the end keeps the others inside the name; a run of markers may leave no name.
example : displayNameOf "A#B#".toList = "A#B".toList ∧ displayNameOf "A##.".toList = [] := by decide

theorem Delimited.isInfix (h : Delimited chain before name marker) : name <:+: chain :=
  ⟨before, marker, h.eq.symm⟩

/-! ### The pieces of a symbol -/

theorem chainOf_suffix (symbol : List Char) : chainOf symbol <:+ symbol := by
  by_cases h : chainOf symbol = []
  · rw [h]
    exact List.nil_suffix
  · obtain ⟨before, hsplit⟩ := exists_splitsAt_of_chainOf_ne_nil h
    exact ⟨before ++ ['/'], by rw [← List.append_cons]; exact hsplit.eq.symm⟩

/-- A text is the short name of a chain exactly if it is the piece of the chain between the
delimiters, and every chain has such a piece. In a parsed symbol the short name is that piece of the
chain, and the chain is the end of the symbol. -/
theorem displayNameOf_eq_iff_and_parse_pieces :
    (∀ chain name, displayNameOf chain = name ↔
      ∃ before marker, Delimited chain before name marker) ∧
    ∀ symbol : String,
      (∃ before marker,
        Delimited (parse symbol).chain.toList before (parse symbol).displayName.toList marker) ∧
      (parse symbol).displayName.toList <:+: (parse symbol).chain.toList ∧
      (parse symbol).chain.toList <:+ symbol.toList := by
  refine ⟨fun chain name => displayNameOf_eq_iff, fun symbol => ?_⟩
  have hname : displayNameOf (parse symbol).chain.toList = (parse symbol).displayName.toList := by
    simp only [parse, String.toList_ofList]
  obtain ⟨before, marker, h⟩ := displayNameOf_eq_iff.mp hname
  refine ⟨⟨before, marker, h⟩, h.isInfix, ?_⟩
  rw [parse, String.toList_ofList]
  exact chainOf_suffix symbol.toList

end SymbolSearch.Descriptor
