import TableSchema.Proofs.Narrowing
import TableSchema.Proofs.PathLookup
import TableSchema.Samples

/-!
# Lookups in a narrowed schema

A narrowed schema has some of the places of its source, in the same order.  Their positions are
new, since their neighbours may be gone, but the labels of the slots on the way to each are the old
ones, and labels are all that a number, a canonical path and a short path are read off.  So what can
be looked up in the source can be looked up in the narrowed schema as far as it is still there, and
with the same outcome (`Schema.narrowed_resolves`): among the places with some path the first one
stays the first one, and no path becomes canonical that was not.
-/

namespace TableSchema

/-! ## What is read off labels -/

/-- Whether short paths leave out a hop with this label. -/
def Label.isElided (l : Label) : Bool := l.role.elidesStruct && decide (l.kind = .struct)

namespace Place
variable {ps qs : List Place}

theorem getLast?_outline (p : Place) : p.outline.getLast?.map Label.id = some p.id := by
  rw [outline, way, List.map_append, List.map_singleton, List.getLast?_concat]
  rfl

/-- The number of a place is the last one in its outline. -/
theorem id_eq_of_outline_eq {p q : Place} (h : p.outline = q.outline) : p.id = q.id := by
  have hlast := p.getLast?_outline
  rw [h, getLast?_outline] at hlast
  exact (Option.some.inj hlast).symm

theorem map_id_eq_of_map_outline_eq (h : ps.map outline = qs.map outline) :
    ps.map id = qs.map id := by
  have hlast := congrArg (List.map fun o => o.getLast?.map Label.id) h
  rw [List.map_map, List.map_map] at hlast
  have hid : (fun o : List Label => o.getLast?.map Label.id) ∘ outline = some ∘ id :=
    funext getLast?_outline
  rw [hid, ← List.map_map, ← List.map_map] at hlast
  exact List.map_injective_iff.2 (fun _ _ => Option.some.inj) hlast

end Place

namespace PathStyle
variable (style : PathStyle)

/-- The path along slots with some labels. -/
def labelPath (labels : List Label) : String :=
  ".".intercalate (labels.map fun l => style.case.key (style.quote l.name))

theorem canonical_eq_labelPath (p : Place) : style.canonical p = style.labelPath p.outline := by
  rw [canonical, path, labelPath, Place.outline, List.map_map]
  rfl

theorem canonical_eq_of_outline_eq {p q : Place} (h : p.outline = q.outline) :
    style.canonical p = style.canonical q := by
  rw [canonical_eq_labelPath, canonical_eq_labelPath, h]

theorem short_eq_labelPath (p : Place) :
    style.short p = style.labelPath (p.outline.filter fun l => !l.isElided) := by
  rw [short, path, labelPath, Place.outline, Place.shortWay, List.filter_map, List.map_map]
  rfl

variable {style} {ps qs : List Place} {name : String}

/-- **The outline of the place that a path leads to depends on the outlines of the places only.** -/
theorem map_outline_placeAt? (h : ps.map Place.outline = qs.map Place.outline) :
    (style.placeAt? ps name).map Place.outline = (style.placeAt? qs name).map Place.outline := by
  have hfind (rs : List Place) : (style.placeAt? rs name).map Place.outline =
      ((rs.map Place.outline).find? fun o => style.labelPath o = style.case.key name).or
        ((rs.map Place.outline).find? fun o =>
          style.labelPath (o.filter fun l => !l.isElided) = style.case.key name) := by
    rw [placeAt?, Option.map_or, List.find?_map, List.find?_map]
    simp only [canonical_eq_labelPath, short_eq_labelPath, Function.comp_def]
  rw [hfind, hfind, h]

end PathStyle

/-! ## Fewer places -/

section Fewer
variable {α : Type} {f keep : α → Bool} {as : List α}

/-- What is found first is found first among fewer things too, if it is one of them. -/
theorem find?_filter_eq_some {a : α} (h : as.find? f = some a) (hkeep : keep a = true) :
    (as.filter keep).find? f = some a := by
  induction as with
  | nil => cases h
  | cons b as ih =>
    by_cases hb : f b = true
    · rw [List.find?_cons_of_pos hb, Option.some.injEq] at h
      subst h
      rw [List.filter_cons_of_pos hkeep, List.find?_cons_of_pos hb]
    · rw [List.find?_cons_of_neg hb] at h
      by_cases hkb : keep b = true
      · rw [List.filter_cons_of_pos hkb, List.find?_cons_of_neg hb]
        exact ih h
      · rw [List.filter_cons_of_neg hkb]
        exact ih h

theorem find?_filter_eq_none (h : as.find? f = none) : (as.filter keep).find? f = none := by
  rw [List.find?_eq_none] at h ⊢
  exact fun a ha => h a (List.mem_of_mem_filter ha)

end Fewer

namespace PathStyle
variable {style : PathStyle} {places : List Place} {keep : Place → Bool} {name : String}

/-- **A path leads to the same place among fewer places**, if the place is one of them. -/
theorem placeAt?_filter_eq_some {p : Place} (h : style.placeAt? places name = some p)
    (hkeep : keep p = true) : style.placeAt? (places.filter keep) name = some p := by
  rw [placeAt?, Option.or_eq_some_iff] at h ⊢
  rcases h with hcanonical | ⟨hnone, hshort⟩
  · exact .inl (find?_filter_eq_some hcanonical hkeep)
  · exact .inr ⟨find?_filter_eq_none hnone, find?_filter_eq_some hshort hkeep⟩

/-- A path that leads nowhere leads nowhere among fewer places. -/
theorem placeAt?_filter_eq_none (h : style.placeAt? places name = none) :
    style.placeAt? (places.filter keep) name = none := by
  rw [placeAt?, Option.or_eq_none_iff] at h ⊢
  exact h.imp find?_filter_eq_none find?_filter_eq_none

end PathStyle

/-! ## Narrowed schemas -/

namespace Derived.NarrowsTo
variable {d : Derived} {s : Schema} {keep : List Nat → Bool} {case : NameCase} {index : IdIndex}
  {paths : PathIndex}

theorem map_outline (h : d.NarrowsTo s keep) : d.schema.root.places.map Place.outline =
    (s.root.places.filter fun p => keep p.position).map Place.outline := by
  have hplaces := congrArg (List.map Prod.fst) h.places_eq
  rwa [List.map_map, List.map_map] at hplaces

/-- Every place of the narrowed schema is a kept place of its source. -/
theorem exists_source (h : d.NarrowsTo s keep) {q : Place} (hq : q ∈ d.schema.root.places) :
    ∃ p ∈ s.root.places, keep p.position = true ∧ p.outline = q.outline := by
  have hmem := List.mem_map_of_mem (f := Place.outline) hq
  rw [h.map_outline] at hmem
  obtain ⟨p, hp, houtline⟩ := List.mem_map.1 hmem
  obtain ⟨hp, hkeep⟩ := List.mem_filter.1 hp
  exact ⟨p, hp, hkeep, houtline⟩

/-- The index of numbers of the narrowed schema can be built. -/
theorem exists_idIndex (h : d.NarrowsTo s keep) (hids : s.idIndex = .ok index) :
    ∃ index', d.schema.idIndex = .ok index' := by
  refine ⟨_, IdIndex.build_eq_ok_iff.2 ⟨?_, rfl⟩⟩
  rw [Place.map_id_eq_of_map_outline_eq h.map_outline]
  exact (IdIndex.build_eq_ok_iff.1 hids).1.sublist (List.filter_sublist.map Place.id)

/-- Places that agree in the source agree in the narrowed schema. -/
theorem agrees {style : PathStyle} (h : d.NarrowsTo s keep) (hs : style.Agrees s.root) :
    style.Agrees d.schema.root := by
  intro p hp q hq hpath
  obtain ⟨p', hp', -, hpo⟩ := h.exists_source hp
  obtain ⟨q', hq', -, hqo⟩ := h.exists_source hq
  rw [← Place.id_eq_of_outline_eq hpo, ← Place.id_eq_of_outline_eq hqo]
  refine hs p' hp' q' hq' ?_
  rw [style.canonical_eq_of_outline_eq hpo, hpath, style.canonical_eq_of_outline_eq hqo]

/-- The index of paths of the narrowed schema can be built. -/
theorem exists_pathIndex (h : d.NarrowsTo s keep) (hpaths : s.pathIndex case = .ok paths) :
    ∃ paths', d.schema.pathIndex case = .ok paths' :=
  ⟨_, PathIndex.build_eq_ok_iff.2 ⟨h.agrees (PathIndex.build_eq_ok_iff.1 hpaths).1, rfl⟩⟩

/-- **A path that leads to a kept place leads to it in the narrowed schema too.** -/
theorem exists_placeAt?_eq_some (h : d.NarrowsTo s keep) {style : PathStyle} {name : String}
    {p : Place} (hp : style.placeAt? s.root.places name = some p)
    (hkeep : keep p.position = true) :
    ∃ q, style.placeAt? d.schema.root.places name = some q ∧ q.outline = p.outline := by
  have hkept : style.placeAt? (s.root.places.filter fun p => keep p.position) name = some p :=
    PathStyle.placeAt?_filter_eq_some hp hkeep
  rw [← Option.map_eq_some_iff, PathStyle.map_outline_placeAt? h.map_outline, hkept,
    Option.map_some]

theorem placeAt?_eq_none (h : d.NarrowsTo s keep) {style : PathStyle} {name : String}
    (hnone : style.placeAt? s.root.places name = none) :
    style.placeAt? d.schema.root.places name = none := by
  have hkept : style.placeAt? (s.root.places.filter fun p => keep p.position) name = none :=
    PathStyle.placeAt?_filter_eq_none hnone
  rw [← Option.map_eq_none_iff (f := Place.outline),
    PathStyle.map_outline_placeAt? h.map_outline, hkept, Option.map_none]

/-- A place of the source whose number is still there is kept. -/
theorem keep_of_id_eq (h : d.NarrowsTo s keep) (hids : s.idIndex = .ok index) {p q : Place}
    (hp : p ∈ s.root.places) (hq : q ∈ d.schema.root.places) (hid : q.id = p.id) :
    keep p.position = true := by
  obtain ⟨p', hp', hkeep, houtline⟩ := h.exists_source hq
  have hsame : p' = p :=
    Schema.eq_of_id_eq hids hp' hp ((Place.id_eq_of_outline_eq houtline).trans hid)
  rwa [← hsame]

/-- **Every field of the narrowed schema has the canonical path that it has in the source.** -/
theorem pathOf_eq (h : d.NarrowsTo s keep) (hids : s.idIndex = .ok index)
    (hpaths : s.pathIndex case = .ok paths) {q : Place} (hq : q ∈ d.schema.root.places) :
    s.pathOf q.id = d.schema.pathOf q.id := by
  obtain ⟨index', hids'⟩ := h.exists_idIndex hids
  obtain ⟨paths', hpaths'⟩ := h.exists_pathIndex hpaths
  obtain ⟨p, hp, -, houtline⟩ := h.exists_source hq
  rw [Schema.pathOf_eq_ok hids' hpaths' hq, ← Place.id_eq_of_outline_eq houtline,
    Schema.pathOf_eq_ok hids hpaths hp, PathStyle.canonical_eq_of_outline_eq _ houtline]

/-- **A path that leads to a field of the source leads to the field with the same number**, if the
narrowed schema has one. -/
theorem exists_fieldAtPath_eq_ok (h : d.NarrowsTo s keep) (hids : s.idIndex = .ok index)
    (hpaths : s.pathIndex case = .ok paths) {name : String} {f : Field}
    (hf : s.fieldAtPath name case = .ok (some f)) {q : Place} (hq : q ∈ d.schema.root.places)
    (hid : q.id = f.id) :
    ∃ g, d.schema.fieldAtPath name case = .ok (some g) ∧ g.id = f.id := by
  obtain ⟨index', hids'⟩ := h.exists_idIndex hids
  obtain ⟨paths', hpaths'⟩ := h.exists_pathIndex hpaths
  rw [Schema.fieldAtPath_eq_placeAt? hids hpaths, Except.ok.injEq, Option.map_eq_some_iff] at hf
  obtain ⟨p, hplace, rfl⟩ := hf
  have hkeep := h.keep_of_id_eq hids (PathStyle.mem_of_placeAt? hplace) hq hid
  obtain ⟨p', hplace', houtline⟩ := h.exists_placeAt?_eq_some hplace hkeep
  refine ⟨p'.field, ?_, Place.id_eq_of_outline_eq houtline⟩
  rw [Schema.fieldAtPath_eq_placeAt? hids' hpaths', hplace', Option.map_some]

/-- **A path that leads nowhere in the source leads nowhere in the narrowed schema.** -/
theorem fieldAtPath_eq_none (h : d.NarrowsTo s keep) (hids : s.idIndex = .ok index)
    (hpaths : s.pathIndex case = .ok paths) {name : String}
    (hnone : s.fieldAtPath name case = .ok none) :
    d.schema.fieldAtPath name case = .ok none := by
  obtain ⟨index', hids'⟩ := h.exists_idIndex hids
  obtain ⟨paths', hpaths'⟩ := h.exists_pathIndex hpaths
  rw [Schema.fieldAtPath_eq_placeAt? hids hpaths, Except.ok.injEq,
    Option.map_eq_none_iff] at hnone
  rw [Schema.fieldAtPath_eq_placeAt? hids' hpaths', h.placeAt?_eq_none hnone, Option.map_none]

end Derived.NarrowsTo

namespace Schema
variable {s : Schema} {d : Derived}

/-- A schema is narrowed to everything by the wildcard. -/
theorem narrowsTo_whole (s : Schema) : Derived.NarrowsTo ⟨s, .whole⟩ s fun _ => true := by
  have hkeep : s.root.Keepable fun _ => true := .all fun _ _ _ _ => rfl
  exact narrowsTo_of_keepable rfl (ColumnType.keepOnly_eq_self fun _ _ => rfl).symm hkeep

/-- **Selection and projection narrow a schema to some of its positions.** -/
theorem exists_narrowsTo
    (h : (∃ names case, s.select names case = .ok d) ∨ ∃ ids, s.project ids = .ok d) :
    ∃ keep, d.NarrowsTo s keep := by
  rcases h with ⟨names, case, h⟩ | ⟨ids, h⟩
  · by_cases hwild : wildcard ∈ names
    · rw [select_of_wildcard hwild] at h
      cases h
      exact ⟨_, s.narrowsTo_whole⟩
    · rw [select_eq_bind hwild] at h
      obtain ⟨ids, -, h⟩ := bind_eq_ok_iff.1 h
      exact ⟨_, narrowsTo_of_prune h⟩
  · exact ⟨_, narrowsTo_of_prune h⟩

/-- **A narrowed schema is looked up like its source.**  If both indexes of the source can be built,
so can those of the narrowed schema.  Every field in it has the canonical path that it had, a path
that leads to a field of the source leads to the field with the same number if that is still there,
and a path that leads nowhere in the source leads nowhere. -/
theorem narrowed_resolves {case : NameCase} {index : IdIndex} {paths : PathIndex}
    (hids : s.idIndex = .ok index) (hpaths : s.pathIndex case = .ok paths)
    (hd : (∃ names other, s.select names other = .ok d) ∨ ∃ ids, s.project ids = .ok d) :
    (∃ index', d.schema.idIndex = .ok index') ∧
    (∃ paths', d.schema.pathIndex case = .ok paths') ∧
    (∀ q ∈ d.schema.root.places,
      d.schema.pathOf q.id = .ok (some (PathStyle.canonical { case := .asWritten } q)) ∧
      s.pathOf q.id = d.schema.pathOf q.id ∧
      ∃ p ∈ s.root.places, p.id = q.id ∧
        PathStyle.canonical { case } p = PathStyle.canonical { case } q) ∧
    (∀ name f, s.fieldAtPath name case = .ok (some f) →
      (∃ q ∈ d.schema.root.places, q.id = f.id) →
        ∃ g, d.schema.fieldAtPath name case = .ok (some g) ∧ g.id = f.id) ∧
    ∀ name, s.fieldAtPath name case = .ok none → d.schema.fieldAtPath name case = .ok none := by
  obtain ⟨keep, hnarrow⟩ := exists_narrowsTo hd
  obtain ⟨index', hids'⟩ := hnarrow.exists_idIndex hids
  obtain ⟨paths', hpaths'⟩ := hnarrow.exists_pathIndex hpaths
  refine ⟨⟨index', hids'⟩, ⟨paths', hpaths'⟩, fun q hq => ?_, fun name f hf hthere => ?_,
    fun name hnone => ?_⟩
  · obtain ⟨p, hp, -, houtline⟩ := hnarrow.exists_source hq
    refine ⟨pathOf_eq_ok hids' hpaths' hq, hnarrow.pathOf_eq hids hpaths hq, p, hp,
      Place.id_eq_of_outline_eq houtline, PathStyle.canonical_eq_of_outline_eq _ houtline⟩
  · obtain ⟨q, hq, hid⟩ := hthere
    exact hnarrow.exists_fieldAtPath_eq_ok hids hpaths hf hq hid
  · exact hnarrow.fieldAtPath_eq_none hids hpaths hnone

/-- A short path through the values of a map and the elements of a list in them, in the schema with
just the keys of the map and one leaf in those elements. -/
theorem narrowed_resolves_mapOfStructs :
    ∃ index paths d, idIndex ⟨none, Samples.mapOfStructs⟩ = .ok index ∧
      pathIndex ⟨none, Samples.mapOfStructs⟩ .asWritten = .ok paths ∧
      project ⟨none, Samples.mapOfStructs⟩ [7, 1] = .ok d ∧
      (∃ g, d.schema.fieldAtPath "Map.Second_child.Foo" .asWritten = .ok (some g) ∧ g.id = 1) ∧
      d.schema.fieldAtPath "Second_child.Foo" .asWritten = .ok none := by
  have hids : idIndex ⟨none, Samples.mapOfStructs⟩ = .ok _ := rfl
  have hpaths : pathIndex ⟨none, Samples.mapOfStructs⟩ .asWritten = .ok _ := rfl
  have hproject : project ⟨none, Samples.mapOfStructs⟩ [7, 1] = .ok _ := rfl
  obtain ⟨-, -, -, hsome, hnone⟩ := narrowed_resolves hids hpaths (.inr ⟨[7, 1], hproject⟩)
  refine ⟨_, _, _, hids, hpaths, hproject, ?_, hnone _ rfl⟩
  exact hsome _ (.nullable 1 "Foo" (.primitive .int)) rfl (by decide)

end Schema
end TableSchema
