import Mathlib
import TableSchema.Proofs.FoldedPaths
import TableSchema.Proofs.IdPositions

/-!
# Hops that short paths leave out

A struct that is the element of a list or the value of a map is left out of short paths, its own
among them.  So its short path is that of the field which holds the list or the map, and when short
paths are offered the turn of that field comes first (`Place.exists_container_before`).  The slot
gets nothing then: the index is the one that comes of not offering short paths to such slots at all,
and a path leads to one of them only if it is its canonical path (`PathIndex.build_elides`).

In the type of a list the element would have nothing above it, so this is about structs.
-/

namespace TableSchema
open List (Sublist)

/-! ## What holds a slot -/

/-- **A place whose field has the other place for a slot.** -/
def Place.Holds (c p : Place) : Prop := p.above = c.way ∧ ∃ i, p.position = c.position ++ [i]

namespace Place.Holds
variable {c p : Place}

theorem below (h : c.Holds p) (i : Nat) (hop : Hop) : (c.below i hop).Holds (p.below i hop) := by
  obtain ⟨habove, j, hpos⟩ := h
  refine ⟨congrArg (hop :: ·) habove, j, ?_⟩
  rw [position_below, position_below, hpos, List.cons_append]

theorem parent_eq (h : c.Holds p) (t : ColumnType) : p.parent t = c.field.type := by
  rw [parent, h.1, way, List.getLast?_concat]
  rfl

theorem way_eq (h : c.Holds p) : p.way = c.way ++ [p.hop] := by
  rw [way, h.1]

/-- **A slot that is left out has the short way of what holds it.** -/
theorem shortWay_eq (h : c.Holds p) (helided : p.hop.isElided = true) :
    p.shortWay = c.shortWay := by
  rw [shortWay, h.way_eq, List.filter_append, List.filter_singleton, helided, shortWay]
  exact List.append_nil _

end Place.Holds

/-- A struct has no slots that are left out. -/
theorem ColumnType.isStruct_eq_false_of_isElided {t : ColumnType} {h : Hop} (hh : h ∈ t.hops)
    (helided : h.isElided = true) : t.isStruct = false := by
  cases t with
  | struct fields =>
    obtain ⟨f, -, rfl⟩ := List.mem_map.1 hh
    cases helided
  | _ => rfl

/-- The places in and below a slot are listed one after the other. -/
theorem ColumnType.places_slot_sublist {t : ColumnType} {i : Nat} {h : Hop}
    (hi : t.hops[i]? = some h) : Sublist (h.places i h.field.type.places) t.places := by
  rw [t.places_eq_flatMap, List.flatMap]
  refine List.sublist_flatten_of_mem (List.mem_map.2 ⟨(h, i), ?_, rfl⟩)
  exact List.mem_zipIdx_iff_getElem?.2 hi

/-- **A place is a slot of the type itself or is held by a place that is listed before it.** -/
theorem ColumnType.child_or_held {t : ColumnType} {p : Place} (hp : p ∈ t.places) :
    (∃ i h, t.hops[i]? = some h ∧ p = .child i h) ∨ ∃ c, c.Holds p ∧ Sublist [c, p] t.places := by
  induction t using induction_hops generalizing p with
  | node t ih =>
    obtain ⟨i, h, hi, rfl | ⟨q, hq, rfl⟩⟩ := mem_places.1 hp
    · exact .inl ⟨i, h, hi, rfl⟩
    · right
      have hslot := places_slot_sublist hi
      rcases ih h (List.mem_of_getElem? hi) hq with ⟨j, g, -, rfl⟩ | ⟨c, hholds, hbefore⟩
      · refine ⟨.child i h, ⟨rfl, j, rfl⟩, .trans ?_ hslot⟩
        exact (List.singleton_sublist.2 (List.mem_map_of_mem hq)).cons_cons _
      · refine ⟨c.below i h, hholds.below i h, .trans ?_ hslot⟩
        exact (hbefore.map (Place.below i h)).cons _

/-- In a list without repetitions, what is listed before something stands before it. -/
theorem mem_of_pair_sublist {α : Type} {a b : α} {before after : List α}
    (h : Sublist [a, b] (before ++ b :: after)) (hnodup : (before ++ b :: after).Nodup) :
    a ∈ before := by
  obtain ⟨front, back, hsplit, ha, hb⟩ := List.cons_sublist_iff.1 h
  rw [List.singleton_sublist] at hb
  rcases List.append_eq_append_iff.1 hsplit with ⟨rest, hfront, hrest⟩ | ⟨rest, hbefore, -⟩
  · cases rest with
    | nil => rwa [hfront, List.append_nil] at ha
    | cons b' rest =>
      -- The other entry would come after the one that is there once.
      obtain ⟨rfl, hafter⟩ := List.cons.inj hrest
      refine absurd ?_ (List.nodup_cons.1 (List.nodup_append.1 hnodup).2.1).1
      rw [hafter]
      exact List.mem_append_right rest hb
  · rw [hbefore]
    exact List.mem_append_left rest ha

/-- **A slot of a struct that is left out has what holds it before it.** -/
theorem Place.exists_container_before {fields : List Field} {before after : List Place} {p : Place}
    (hplaces : (ColumnType.struct fields).places = before ++ p :: after)
    (helided : p.hop.isElided = true) :
    ∃ c ∈ before, c.Holds p ∧ c.hop.isElided = false := by
  have hp : p ∈ (ColumnType.struct fields).places := by
    rw [hplaces]
    exact List.mem_append_right before List.mem_cons_self
  rcases ColumnType.child_or_held hp with ⟨i, h, hi, rfl⟩ | ⟨c, hholds, hbefore⟩
  · cases ColumnType.isStruct_eq_false_of_isElided (List.mem_of_getElem? hi) helided
  · have hnodup := (ColumnType.struct fields).nodup_map_position.of_map
    rw [hplaces] at hbefore hnodup
    refine ⟨c, mem_of_pair_sublist hbefore hnodup, hholds, ?_⟩
    have hhop := ColumnType.hop_mem_hops_parent hp
    rw [hholds.parent_eq] at hhop
    have hstruct := ColumnType.isStruct_eq_false_of_isElided hhop helided
    exact Bool.and_eq_false_iff.2 (.inr hstruct)

namespace PathStyle
variable (style : PathStyle)

/-- What holds a slot that is left out has the same short path, and is offered it before. -/
theorem exists_container_before {fields : List Field} {before after : List Place} {p : Place}
    (hplaces : (ColumnType.struct fields).places = before ++ p :: after)
    (helided : p.hop.isElided = true) :
    ∃ c ∈ before, c.Holds p ∧ c.hop.isElided = false ∧ style.short p = style.short c := by
  obtain ⟨c, hc, hholds, hcontainer⟩ := Place.exists_container_before hplaces helided
  exact ⟨c, hc, hholds, hcontainer, congrArg style.path (hholds.shortWay_eq helided)⟩

/-! ## The lengths of paths -/

/-- A path has the characters of its segments and a dot between any two of them. -/
theorem length_path (way : List Hop) : (style.path way).length =
    (way.map fun h => (style.segment h).length).sum + (way.length - 1) := by
  induction way with
  | nil => rfl
  | cons h way ih =>
    cases way with
    | nil => simp [path]
    | cons k way =>
      rw [path, List.map_cons, List.map_cons, String.intercalate_cons_cons, ← List.map_cons]
      change (_ ++ style.path (k :: way)).length = _
      rw [String.length_append, String.length_append, ih]
      simp only [List.map_cons, List.sum_cons, List.length_cons]
      have hdot : ".".length = 1 := rfl
      omega

/-- Leaving out hops never makes a path longer. -/
theorem length_path_le_of_sublist {way way' : List Hop} (h : Sublist way way') :
    (style.path way).length ≤ (style.path way').length := by
  have hsegments := (h.map fun h => (style.segment h).length).sum_le_sum fun _ _ => Nat.zero_le _
  have hlength := h.length_le
  rw [length_path, length_path]
  omega

/-- **The short path of a slot that is left out is shorter than its canonical path.** -/
theorem length_short_lt {c p : Place} (hholds : c.Holds p) (helided : p.hop.isElided = true) :
    (style.short p).length < (style.canonical p).length := by
  have hshort : (style.path c.shortWay).length ≤ (style.path c.way).length :=
    style.length_path_le_of_sublist List.filter_sublist
  have hpos : 0 < c.way.length := List.length_pos_of_ne_nil c.way_ne_nil
  have hlonger : (style.path c.way).length < (style.path (c.way ++ [p.hop])).length := by
    rw [length_path, length_path, List.map_append, List.sum_append, List.length_append,
      List.length_singleton]
    omega
  rw [short, canonical, hholds.shortWay_eq helided, hholds.way_eq]
  exact Nat.lt_of_le_of_lt hshort hlonger

end PathStyle

/-! ## The index -/

/-- Steps that change nothing can be left out of a pass. -/
theorem foldl_filter_of_unchanged {α β : Type} {f : β → α → β} {keep : α → Bool} {as : List α}
    {b : β} (h : ∀ before a after, as = before ++ a :: after → keep a = false →
      f (before.foldl f b) a = before.foldl f b) :
    (as.filter keep).foldl f b = as.foldl f b := by
  induction as using List.reverseRecOn with
  | nil => rfl
  | append_singleton as a ih =>
    have hinit := ih fun before a' after has => h before a' (after ++ [a]) (by simp [has])
    rw [List.filter_append, List.foldl_append, hinit, List.foldl_append]
    cases hkeep : keep a with
    | true =>
      rw [List.filter_singleton, hkeep]
      rfl
    | false =>
      rw [List.filter_singleton, hkeep]
      exact (h as a [] rfl hkeep).symm

namespace PathIndex
variable {style : PathStyle} {fields : List Field} {index : PathIndex}

/-- **A slot that is left out is offered a path that is taken**, as what holds it had its turn. -/
theorem offer_of_isElided {before after : List Place} {p : Place}
    (hplaces : (ColumnType.struct fields).places = before ++ p :: after)
    (helided : p.hop.isElided = true) (canonical : List (String × FieldId)) :
    offer style canonical (before.foldl (offer style canonical) []) p =
      before.foldl (offer style canonical) [] := by
  obtain ⟨c, hc, -, -, hshort⟩ := style.exists_container_before hplaces helided
  rw [offer, append_foldl_offer, lookup_foldl_insertNew, List.append_nil, if_pos]
  rw [← mem_keys_iff, List.map_append, hshort]
  refine List.mem_append_right _ (List.mem_map.2 ⟨style.shortEntry c, ?_, rfl⟩)
  exact List.mem_map_of_mem hc

/-- **The index is the one that comes of not offering short paths to the slots left out.** -/
theorem short_of_build (h : build style (.struct fields) = .ok index) :
    index.short = ((ColumnType.struct fields).places.filter fun p => !p.hop.isElided).foldl
      (offer style index.canonical) [] := by
  obtain ⟨-, rfl⟩ := build_eq_ok_iff.1 h
  refine (foldl_filter_of_unchanged fun before p after hplaces hkeep => ?_).symm
  exact offer_of_isElided hplaces (by simpa using hkeep) _

/-- **A path leads to a slot that is left out just if it is its canonical path.** -/
theorem get?_eq_some_iff_of_isElided (h : build style (.struct fields) = .ok index)
    (hids : ((ColumnType.struct fields).places.map Place.id).Nodup) {p : Place}
    (hp : p ∈ (ColumnType.struct fields).places) (helided : p.hop.isElided = true) {name : String} :
    index.get? name = some p.id ↔ style.canonical p = style.case.key name := by
  refine ⟨fun hget => ?_, get?_eq_some_of_canonical h hp⟩
  rw [get?_of_build h, Option.map_eq_some_iff] at hget
  obtain ⟨q, hplace, hid⟩ := hget
  obtain rfl : q = p :=
    List.inj_on_of_nodup_map hids (PathStyle.mem_of_placeAt? hplace) hp hid
  rcases Option.or_eq_some_iff.1 hplace with hcanonical | ⟨-, hshort⟩
  · simpa using List.find?_some hcanonical
  · -- The first place with the short path would not be the first one.
    obtain ⟨hpath, before, after, hplaces, hfirst⟩ := List.find?_eq_some_iff_append.1 hshort
    obtain ⟨c, hc, -, -, hsame⟩ := style.exists_container_before hplaces helided
    have hother := hfirst c hc
    rw [← hsame, hpath] at hother
    cases hother

/-- **The index knows no short paths but those of the slots that are not left out.** -/
theorem mem_paths_iff_of_isElided (h : build style (.struct fields) = .ok index) {path : String} :
    path ∈ index.paths ↔ ∃ p ∈ (ColumnType.struct fields).places,
      style.canonical p = path ∨ p.hop.isElided = false ∧ style.short p = path := by
  rw [mem_paths_of_build h]
  constructor
  · rintro ⟨p, hp, hcanonical | hshort⟩
    · exact ⟨p, hp, .inl hcanonical⟩
    · cases helided : p.hop.isElided with
      | false => exact ⟨p, hp, .inr ⟨helided, hshort⟩⟩
      | true =>
        -- What holds the slot has the same short path and is not left out itself.
        obtain ⟨before, after, hplaces⟩ := List.append_of_mem hp
        obtain ⟨c, hc, -, hcontainer, hsame⟩ := style.exists_container_before hplaces helided
        refine ⟨c, ?_, .inr ⟨hcontainer, hsame.symm.trans hshort⟩⟩
        rw [hplaces]
        exact List.mem_append_left _ hc
  · rintro ⟨p, hp, hcanonical | ⟨-, hshort⟩⟩
    · exact ⟨p, hp, .inl hcanonical⟩
    · exact ⟨p, hp, .inr hshort⟩

/-- **A slot that is left out never becomes the target of a short path.**  A path leads to it just
if it is its canonical path.  Its short path is that of the field which holds it, which is not left
out and comes before it, and never leads to it.  The short paths of the index are the same as if
none were offered to such slots, so the index knows the canonical paths of all fields, the short
paths of those that are not left out, and no others. -/
theorem build_elides {style : PathStyle} {fields : List Field} {index : PathIndex}
    (h : build style (.struct fields) = .ok index)
    (hids : ((ColumnType.struct fields).places.map Place.id).Nodup) :
    (∀ p ∈ (ColumnType.struct fields).places, p.hop.isElided = true →
      (∀ name, index.get? name = some p.id ↔ style.canonical p = style.case.key name) ∧
      ∃ c ∈ (ColumnType.struct fields).places, c.Holds p ∧ c.hop.isElided = false ∧
        style.short p = style.short c ∧
        ∀ name, style.case.key name = style.short c → index.get? name ≠ some p.id) ∧
    index.short = ((ColumnType.struct fields).places.filter fun p => !p.hop.isElided).foldl
      (offer style index.canonical) [] ∧
    ∀ path, path ∈ index.paths ↔ ∃ p ∈ (ColumnType.struct fields).places,
      style.canonical p = path ∨ p.hop.isElided = false ∧ style.short p = path := by
  refine ⟨fun p hp helided => ⟨fun name => ?_, ?_⟩, short_of_build h,
    fun path => mem_paths_iff_of_isElided h⟩
  · exact get?_eq_some_iff_of_isElided h hids hp helided
  · obtain ⟨before, after, hplaces⟩ := List.append_of_mem hp
    obtain ⟨c, hc, hholds, hcontainer, hsame⟩ := style.exists_container_before hplaces helided
    have hlist : c ∈ (ColumnType.struct fields).places := by
      rw [hplaces]
      exact List.mem_append_left _ hc
    refine ⟨c, hlist, hholds, hcontainer, hsame, fun name hname hget => ?_⟩
    have hcanonical := (get?_eq_some_iff_of_isElided h hids hp helided).1 hget
    have hlt := style.length_short_lt hholds helided
    rw [hcanonical, hname, hsame] at hlt
    exact absurd hlt (Nat.lt_irrefl _)

/-- A list of lists of structs, and a map of structs under a name with a dot. -/
def nestedSlots : List Field :=
  [.nullable 1 "days"
      (.list 2 (.list 3 (.struct [.nullable 4 "no" (.primitive .int)]) false) false),
    .nullable 5 "a.b" (.map 6 (.primitive .int) 7 (.struct []) false)]

/-- A name of which nothing is left if it is that of the days. -/
def unlessDays (name : String) : String := if name = "days" then "" else name

/-- The structs in the inner list have the short path of the outer list's element, and the values of
the map that of the map; these paths lead to what holds them.  The field of the structs is found
without the inner element, but not without both. -/
theorem build_elides_nestedSlots :
    ((ColumnType.struct nestedSlots).places.map Place.id).Nodup ∧
    ∃ index, build { case := .asWritten, quote := unlessDays } (.struct nestedSlots) = .ok index ∧
      index.get? ".element.element" = some 3 ∧ index.get? ".element" ≠ some 3 ∧
      index.get? ".element" = some 2 ∧ index.get? "a.b" ≠ some 7 ∧ index.get? "a.b" = some 5 ∧
      ".element.no" ∈ index.paths ∧ ".no" ∉ index.paths := by
  have hids : ((ColumnType.struct nestedSlots).places.map Place.id).Nodup := by decide
  have h : build { case := .asWritten, quote := unlessDays } (.struct nestedSlots) = .ok _ := rfl
  obtain ⟨helided, -, hpaths⟩ := build_elides h hids
  obtain ⟨hinner, c, -, -, -, hshort, htaken⟩ :=
    helided (ColumnType.struct nestedSlots).places[2] (List.getElem_mem _) (by decide)
  obtain ⟨-, c', -, -, -, hshort', htaken'⟩ :=
    helided (ColumnType.struct nestedSlots).places[6] (List.getElem_mem _) (by decide)
  refine ⟨hids, _, h, (hinner _).2 rfl, htaken _ hshort, rfl, htaken' _ hshort', rfl, ?_, ?_⟩
  · refine (hpaths _).2 ⟨(ColumnType.struct nestedSlots).places[3], List.getElem_mem _, ?_⟩
    exact .inr ⟨by decide, rfl⟩
  · rw [hpaths]
    decide

end PathIndex
end TableSchema
