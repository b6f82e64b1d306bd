import Mathlib
import TableSchema.Proofs.IdPositions
import TableSchema.Proofs.PathLookup

/-!
# Following a name down

A name can be looked up without an index: it is cut at its dots, and the pieces pick one slot after
the other from the top down (`PathStyle.descend?`).  If no segment has a dot in it and the slots of
every type have different segments (`PathStyle.Separates`), this comes to the same as the index
(`PathIndex.build_descends`).  Paths are then as different as the ways that they stand for, because
a text that is joined with dots from segments without dots is cut into these segments again
(`pieces_intercalate`).  That holds of empty segments too, as long as there is one at all.
-/

namespace TableSchema

/-! ## Names cut at their dots -/

/-- What stands between the dots of a name, in order; a name without a dot is one piece. -/
def pieces (name : String) : List String := (name.toList.splitOn '.').map String.ofList

/-- Joining the pieces of a name gives the name. -/
theorem intercalate_pieces (name : String) : ".".intercalate (pieces name) = name := by
  refine String.toList_injective ?_
  have hofList : String.toList ∘ String.ofList = id := funext fun _ => String.toList_ofList
  rw [String.toList_intercalate, pieces, List.map_map, hofList, List.map_id]
  exact List.intercalate_splitOn '.'

/-- **Segments without dots are read back** from the text that is joined from them. -/
theorem pieces_intercalate {segments : List String} (hdot : ∀ s ∈ segments, '.' ∉ s.toList)
    (hne : segments ≠ []) : pieces (".".intercalate segments) = segments := by
  have hsplit := List.splitOn_intercalate '.' (List.forall_mem_map.2 hdot)
    (mt List.map_eq_nil_iff.1 hne)
  have htoList : String.ofList ∘ String.toList = id := funext fun _ => String.ofList_toList
  rw [pieces, String.toList_intercalate]
  change (List.splitOn '.' (['.'].intercalate (segments.map String.toList))).map _ = _
  rw [hsplit, List.map_map, htoList, List.map_id]

/-- No letter becomes a dot or is one, so folding neither makes cuts nor removes any. -/
theorem splitOn_map_toLower (chars : List Char) :
    (chars.map Char.toLower).splitOn '.' = (chars.splitOn '.').map (List.map Char.toLower) := by
  induction chars with
  | nil => rfl
  | cons c chars ih =>
    have hdot : (c.toLower == '.') = (c == '.') :=
      Bool.eq_iff_iff.2 (by rw [beq_iff_eq, beq_iff_eq, toLower_eq_iff rfl])
    rw [List.map_cons, List.splitOn_cons_eq_if_modifyHead, List.splitOn_cons_eq_if_modifyHead, hdot,
      ih]
    split
    · rfl
    · cases chars.splitOn '.' <;> rfl

/-- The pieces of a name as it is compared are those of the name, as they are compared. -/
theorem pieces_key (case : NameCase) (name : String) :
    pieces (case.key name) = (pieces name).map case.key := by
  cases case with
  | asWritten => exact (List.map_id _).symm
  | folded =>
    rw [pieces, NameCase.key_folded, toList_asciiFold, splitOn_map_toLower, pieces, List.map_map,
      List.map_map]
    refine List.map_congr_left fun chars _ => String.toList_injective ?_
    simp

/-! ## Going down -/

namespace PathStyle

/-- The first slot of a type that a piece of a name stands for. -/
def pick? (style : PathStyle) (t : ColumnType) (piece : String) : Option Hop :=
  t.hops.find? fun h => style.segment h = style.case.key piece

/-- The field that some pieces lead to: each one picks a slot of the type that was reached. -/
def descend? (style : PathStyle) (t : ColumnType) : List String → Option Field
  | [] => none
  | [piece] => (style.pick? t piece).map Hop.field
  | piece :: rest => (style.pick? t piece).bind fun h => style.descend? h.field.type rest

/-- **Segments tell ways apart**: none has a dot in it, and the slots of a type, be it the type
itself or that of a field in it, have different ones. -/
structure Separates (style : PathStyle) (t : ColumnType) : Prop where
  dot_not_mem : ∀ p ∈ t.places, '.' ∉ (style.segment p.hop).toList
  nodup_segments : (t.hops.map style.segment).Nodup
  nodup_segments_below : ∀ p ∈ t.places, (p.field.type.hops.map style.segment).Nodup

variable {style : PathStyle} {t : ColumnType}

/-- Segments that tell ways apart do so in the type of every slot. -/
theorem Separates.slot (hs : style.Separates t) {h : Hop} (hh : h ∈ t.hops) :
    style.Separates h.field.type := by
  obtain ⟨i, hi⟩ := List.getElem?_of_mem hh
  exact {
    dot_not_mem := fun p hp => hs.dot_not_mem (p.below i h) (ColumnType.below_mem_places hi hp)
    nodup_segments := hs.nodup_segments_below (.child i h) (ColumnType.child_mem_places hi)
    nodup_segments_below := fun p hp =>
      hs.nodup_segments_below (p.below i h) (ColumnType.below_mem_places hi hp) }

/-- What is picked is a slot with the segment. -/
theorem exists_of_pick?_eq_some {piece : String} {h : Hop} (hpick : style.pick? t piece = some h) :
    ∃ i : Nat, t.hops[i]? = some h ∧ style.segment h = style.case.key piece := by
  obtain ⟨i, hi⟩ := List.getElem?_of_mem (List.mem_of_find?_eq_some hpick)
  exact ⟨i, hi, by simpa using List.find?_some hpick⟩

/-- A slot is picked by its segment. -/
theorem Separates.pick?_eq_some (hs : style.Separates t) {piece : String} {h : Hop}
    (hh : h ∈ t.hops) (hseg : style.segment h = style.case.key piece) :
    style.pick? t piece = some h := by
  rw [pick?, ← hseg]
  exact find?_key_eq_some hs.nodup_segments hh

/-- Where some pieces lead there is a place with them for its segments. -/
theorem exists_place_of_descend? {names : List String} {f : Field}
    (hf : style.descend? t names = some f) :
    ∃ p ∈ t.places, p.way.map style.segment = names.map style.case.key ∧ p.field = f := by
  induction names generalizing t with
  | nil => cases hf
  | cons name rest ih =>
    cases rest with
    | nil =>
      obtain ⟨h, hpick, rfl⟩ := Option.map_eq_some_iff.1 hf
      obtain ⟨i, hi, hseg⟩ := exists_of_pick?_eq_some hpick
      exact ⟨.child i h, ColumnType.child_mem_places hi, by simp [hseg], rfl⟩
    | cons next rest =>
      obtain ⟨h, hpick, hf⟩ := Option.bind_eq_some_iff.1 hf
      obtain ⟨i, hi, hseg⟩ := exists_of_pick?_eq_some hpick
      obtain ⟨q, hq, hway, hfield⟩ := ih hf
      refine ⟨q.below i h, ColumnType.below_mem_places hi hq, ?_, hfield⟩
      rw [Place.way_below, List.map_cons, List.map_cons, hway, hseg]

/-- The segments of the way to a place lead to its field. -/
theorem Separates.descend?_eq_some (hs : style.Separates t) {names : List String} {p : Place}
    (hp : p ∈ t.places) (hway : p.way.map style.segment = names.map style.case.key) :
    style.descend? t names = some p.field := by
  induction t using ColumnType.induction_hops generalizing p names with
  | node t ih =>
    obtain ⟨i, h, hi, hp⟩ := ColumnType.mem_places.1 hp
    have hh : h ∈ t.hops := List.mem_of_getElem? hi
    rcases hp with rfl | ⟨q, hq, rfl⟩
    · rw [Place.way_child, List.map_singleton] at hway
      obtain ⟨name, rest, rfl, hseg, hrest⟩ := List.map_eq_cons_iff.1 hway.symm
      obtain rfl := List.map_eq_nil_iff.1 hrest
      rw [descend?, hs.pick?_eq_some hh hseg.symm]
      rfl
    · rw [Place.way_below, List.map_cons] at hway
      obtain ⟨name, rest, rfl, hseg, hrest⟩ := List.map_eq_cons_iff.1 hway.symm
      have hne : rest ≠ [] := by
        rintro rfl
        exact q.way_ne_nil (List.map_eq_nil_iff.1 hrest.symm)
      rw [Place.field_below, descend?, hs.pick?_eq_some hh hseg.symm, Option.bind_some]
      · exact ih h hh (hs.slot hh) hq hrest.symm
      · exact hne

/-- Slots of a type with the same segment are the same slot. -/
theorem Separates.eq_of_segment_eq (hs : style.Separates t) {i j : Nat} {g h : Hop}
    (hi : t.hops[i]? = some g) (hj : t.hops[j]? = some h)
    (hseg : style.segment g = style.segment h) : i = j ∧ g = h := by
  have hlt : i < (t.hops.map style.segment).length := by
    rw [List.length_map]
    exact (List.getElem?_eq_some_iff.1 hi).1
  have hij : i = j := by
    refine (List.getElem?_inj hlt hs.nodup_segments).1 ?_
    rw [List.getElem?_map, List.getElem?_map, hi, hj, Option.map_some, Option.map_some, hseg]
  subst hij
  exact ⟨rfl, Option.some.inj (hi.symm.trans hj)⟩

/-- **Ways with the same segments are the same way.** -/
theorem Separates.eq_of_segments_eq (hs : style.Separates t) {p q : Place} (hp : p ∈ t.places)
    (hq : q ∈ t.places) (hway : p.way.map style.segment = q.way.map style.segment) : p = q := by
  induction t using ColumnType.induction_hops generalizing p q with
  | node t ih =>
    obtain ⟨i, g, hi, hp'⟩ := ColumnType.mem_places.1 hp
    obtain ⟨j, h, hj, hq'⟩ := ColumnType.mem_places.1 hq
    -- The first segment tells the slot, the others what is below it, if there are any.
    rcases hp' with rfl | ⟨p, hp', rfl⟩
    · rcases hq' with rfl | ⟨q, -, rfl⟩
      · obtain ⟨rfl, rfl⟩ := hs.eq_of_segment_eq hi hj (List.cons.inj hway).1
        rfl
      · exact absurd (List.cons.inj hway).2.symm (mt List.map_eq_nil_iff.1 q.way_ne_nil)
    · rcases hq' with rfl | ⟨q, hq', rfl⟩
      · exact absurd (List.cons.inj hway).2 (mt List.map_eq_nil_iff.1 p.way_ne_nil)
      · obtain ⟨hseg, hrest⟩ := List.cons.inj hway
        obtain ⟨rfl, rfl⟩ := hs.eq_of_segment_eq hi hj hseg
        have hg : g ∈ t.hops := List.mem_of_getElem? hi
        rw [ih g hg (hs.slot hg) hp' hq' hrest]

/-! ## Paths without ambiguity -/

/-- The pieces of a canonical path are the segments of the way. -/
theorem Separates.pieces_canonical (hs : style.Separates t) {p : Place} (hp : p ∈ t.places) :
    pieces (style.canonical p) = p.way.map style.segment := by
  refine pieces_intercalate (List.forall_mem_map.2 fun h hh => ?_) ?_
  · obtain ⟨q, hq, rfl⟩ := ColumnType.exists_place_of_mem_way hp hh
    exact hs.dot_not_mem q hq
  · exact mt List.map_eq_nil_iff.1 p.way_ne_nil

/-- **A name is the canonical path of a place just if its pieces are the segments of the way.** -/
theorem Separates.canonical_eq_key_iff (hs : style.Separates t) {p : Place} (hp : p ∈ t.places)
    {name : String} : style.canonical p = style.case.key name ↔
      p.way.map style.segment = (pieces name).map style.case.key := by
  rw [← hs.pieces_canonical hp, ← pieces_key]
  constructor
  · intro h
    rw [h]
  · intro h
    rw [← intercalate_pieces (style.canonical p), h, intercalate_pieces]

/-- Different places have different canonical paths. -/
theorem Separates.eq_of_canonical_eq (hs : style.Separates t) {p q : Place} (hp : p ∈ t.places)
    (hq : q ∈ t.places) (h : style.canonical p = style.canonical q) : p = q := by
  refine hs.eq_of_segments_eq hp hq ?_
  rw [← hs.pieces_canonical hp, h, hs.pieces_canonical hq]

theorem Separates.nodup_map_canonical (hs : style.Separates t) :
    (t.places.map style.canonical).Nodup :=
  (List.nodup_map_iff_inj_on t.nodup_map_position.of_map).2 fun _ hp _ hq =>
    hs.eq_of_canonical_eq hp hq

/-- **Going down along the pieces of a name leads to the field whose canonical path it is.** -/
theorem Separates.descend?_pieces_eq_some_iff (hs : style.Separates t) {name : String} {f : Field} :
    style.descend? t (pieces name) = some f ↔
      ∃ p ∈ t.places, style.canonical p = style.case.key name ∧ p.field = f := by
  constructor
  · intro hf
    obtain ⟨p, hp, hway, hfield⟩ := exists_place_of_descend? hf
    exact ⟨p, hp, (hs.canonical_eq_key_iff hp).2 hway, hfield⟩
  · rintro ⟨p, hp, hpath, rfl⟩
    exact hs.descend?_eq_some hp ((hs.canonical_eq_key_iff hp).1 hpath)

end PathStyle

/-- **Looking a name up in the index is going down along its pieces**, if segments tell ways apart.
The index can be built and has one canonical path for every place, all of them different.  Where the
pieces of a name lead to a field, the index leads to its number, and the names in the form in which
they are compared whose pieces lead to a field are just the canonical paths. -/
theorem PathIndex.build_descends {style : PathStyle} {root : ColumnType}
    (hs : style.Separates root) :
    ∃ index, build style root = .ok index ∧
      index.canonical = root.places.map style.canonicalEntry ∧
      (root.places.map style.canonical).Nodup ∧
      (∀ name f, style.descend? root (pieces name) = some f → index.get? name = some f.id) ∧
      (∀ name f, style.descend? root (pieces name) = some f ↔
        ∃ p ∈ root.places, style.canonical p = style.case.key name ∧ p.field = f) ∧
      ∀ name, style.case.key name = name →
        ((style.descend? root (pieces name)).isSome = true ↔
          name ∈ index.canonical.map Prod.fst) := by
  have hagrees : style.Agrees root := by
    intro p hp q hq hpath
    rw [hs.eq_of_canonical_eq hp hq hpath]
  have hbuild : build style root = .ok _ := build_eq_ok_iff.2 ⟨hagrees, rfl⟩
  have hcanonical := canonical_of_build hbuild hs.nodup_map_canonical
  refine ⟨_, hbuild, hcanonical, hs.nodup_map_canonical, fun name f hf => ?_,
    fun name f => hs.descend?_pieces_eq_some_iff, fun name hname => ?_⟩
  · obtain ⟨p, hp, hpath, rfl⟩ := hs.descend?_pieces_eq_some_iff.1 hf
    exact get?_eq_some_of_canonical hbuild hp hpath
  · rw [hcanonical, PathStyle.map_fst_canonicalEntry, List.mem_map, Option.isSome_iff_exists]
    simp only [hs.descend?_pieces_eq_some_iff, hname]
    constructor
    · rintro ⟨f, p, hp, hpath, -⟩
      exact ⟨p, hp, hpath⟩
    · rintro ⟨p, hp, hpath⟩
      exact ⟨p.field, p, hp, hpath, rfl⟩

/-- A struct without a name that holds a column without a name and a list of structs, next to a
column with a dot in its name. -/
def unnamed : ColumnType :=
  .struct [.nullable 1 ""
      (.struct [.nullable 2 "" (.primitive .int),
        .nullable 3 "Days" (.list 4 (.struct [.nullable 5 "No" (.primitive .int)]) false)]),
    .nullable 6 "a.b" (.primitive .int)]

/-- A name with dashes for its dots. -/
def dashed (name : String) : String :=
  String.ofList (name.toList.map fun c => if c = '.' then '-' else c)

/-- Empty segments count like others: a dot alone leads from the struct without a name to the
column without one, and two dots lead nowhere. -/
theorem PathIndex.build_descends_unnamed :
    PathStyle.Separates { case := .folded, quote := dashed } unnamed ∧
    ∃ index, build { case := .folded, quote := dashed } unnamed = .ok index ∧
      index.get? "." = some 2 ∧ index.get? ".DAYS.element.no" = some 5 ∧
      index.get? "A-B" = some 6 ∧ ".days" ∈ index.canonical.map Prod.fst ∧
      ".." ∉ index.canonical.map Prod.fst := by
  have hbelow : (unnamed.places.all fun p => (p.field.type.hops.map
      (PathStyle.segment { case := .folded, quote := dashed })).Nodup) = true := by
    cbv
  have hs : PathStyle.Separates { case := .folded, quote := dashed } unnamed := {
    dot_not_mem := of_decide_eq_true (by cbv)
    nodup_segments := of_decide_eq_true (by cbv)
    nodup_segments_below := fun p hp => of_decide_eq_true (List.all_eq_true.1 hbelow p hp) }
  obtain ⟨index, hbuild, -, -, hget, hdescend, hnames⟩ := build_descends hs
  have hempty := (hdescend "." _).2 ⟨unnamed.places[1], List.getElem_mem _, by cbv, rfl⟩
  have hlist := (hdescend ".days" _).2 ⟨unnamed.places[2], List.getElem_mem _, by cbv, rfl⟩
  have hday := (hdescend ".DAYS.element.no" _).2
    ⟨unnamed.places[4], List.getElem_mem _, by cbv, rfl⟩
  have hdash := (hdescend "A-B" _).2 ⟨unnamed.places[5], List.getElem_mem _, by cbv, rfl⟩
  have hnowhere : ¬(PathStyle.descend? { case := .folded, quote := dashed } unnamed
      (pieces "..")).isSome = true := by
    rw [Bool.not_eq_true]
    cbv
  exact ⟨hs, index, hbuild, hget _ _ hempty, hget _ _ hday, hget _ _ hdash,
    (hnames _ (by cbv)).1 (Option.isSome_of_eq_some hlist), mt (hnames _ (by cbv)).2 hnowhere⟩

end TableSchema
