import TableSchema.Proofs.IdPositions
import TableSchema.Proofs.PathLookup

/-!
# Numbers and canonical paths

In a schema whose indexes can be built a field is given by its number and also by its canonical
path.  So going from numbers to paths and from paths to fields are inverse to each other
(`Schema.canonicalPaths_inverse`): the path of a number leads to the field with that number, and a
path that leads to a field at all, be it a short one, leads to the field that the canonical path of
its number leads to.
-/

namespace TableSchema
namespace Schema
variable {s : Schema} {index : IdIndex} {paths : PathIndex}

/-- The path of a number is the canonical path of a place with the number. -/
theorem pathOf_eq_some_iff (hids : s.idIndex = .ok index)
    (hpaths : s.pathIndex .asWritten = .ok paths) {id : FieldId} {path : String} :
    s.pathOf id = .ok (some path) ↔
      ∃ p ∈ s.root.places, p.id = id ∧ PathStyle.canonical { case := .asWritten } p = path := by
  constructor
  · intro h
    rw [pathOf_eq_find? hids hpaths, Except.ok.injEq, Option.map_eq_some_iff] at h
    obtain ⟨p, hfind, rfl⟩ := h
    have hid : p.id = id := by simpa using List.find?_some hfind
    exact ⟨p, List.mem_of_find?_eq_some hfind, hid, rfl⟩
  · rintro ⟨p, hp, rfl, rfl⟩
    exact pathOf_eq_ok hids hpaths hp

theorem pathOf_eq_none_iff (hids : s.idIndex = .ok index)
    (hpaths : s.pathIndex .asWritten = .ok paths) {id : FieldId} :
    s.pathOf id = .ok none ↔ ∀ p ∈ s.root.places, p.id ≠ id := by
  rw [pathOf_eq_find? hids hpaths, Except.ok.injEq, Option.map_eq_none_iff, List.find?_eq_none]
  simp only [decide_eq_true_eq, ne_eq]

/-- **The canonical path of a place leads to its field.** -/
theorem fieldAtPath_canonical (hids : s.idIndex = .ok index)
    (hpaths : s.pathIndex .asWritten = .ok paths) {p : Place} (hp : p ∈ s.root.places) :
    s.fieldAtPath (PathStyle.canonical { case := .asWritten } p) .asWritten =
      .ok (some p.field) :=
  fieldAtPath_of_canonical hids hpaths hp rfl

/-- The number of a place leads to its field. -/
theorem fieldWithId_id (hids : s.idIndex = .ok index) {p : Place} (hp : p ∈ s.root.places) :
    s.fieldWithId p.id = .ok (some p.field) := by
  rw [fieldWithId_eq_ok hids, find?_id_eq_some hids hp, Option.map_some]

/-- What a path leads to is the field of some place. -/
theorem exists_place_of_fieldAtPath {case : NameCase} (hids : s.idIndex = .ok index)
    (hpaths : s.pathIndex case = .ok paths) {name : String} {f : Field}
    (h : s.fieldAtPath name case = .ok (some f)) : ∃ p ∈ s.root.places, p.field = f := by
  rw [fieldAtPath_eq_placeAt? hids hpaths, Except.ok.injEq, Option.map_eq_some_iff] at h
  obtain ⟨p, hplace, rfl⟩ := h
  exact ⟨p, PathStyle.mem_of_placeAt? hplace, rfl⟩

/-- There are as many canonical paths as numbers, one of each for every field. -/
theorem length_canonical_eq_size (hids : s.idIndex = .ok index)
    (hpaths : s.pathIndex .asWritten = .ok paths) : paths.canonical.length = index.size := by
  have hagrees : PathStyle.Agrees { case := .asWritten } s.root :=
    (PathIndex.build_eq_ok_iff.1 hpaths).1
  rw [(IdIndex.records_of_build hids).size_eq,
    PathIndex.canonical_of_build hpaths (nodup_map_canonical hids hagrees), List.length_map]

/-- **Numbers and canonical paths are inverse to each other** in a schema whose indexes can be
built.  Every field has a path, which is its canonical one, and a number that no field has has none.
The path of a number leads to the field that the number leads to, so two numbers never have the same
path.  A path that leads to a field, short or canonical, leads to the same field as the path of its
number. -/
theorem canonicalPaths_inverse (hids : s.idIndex = .ok index)
    (hpaths : s.pathIndex .asWritten = .ok paths) :
    (∀ id path, s.pathOf id = .ok (some path) ↔
      ∃ p ∈ s.root.places, p.id = id ∧ PathStyle.canonical { case := .asWritten } p = path) ∧
    (∀ id, s.pathOf id = .ok none ↔ ∀ p ∈ s.root.places, p.id ≠ id) ∧
    (∀ id path, s.pathOf id = .ok (some path) →
      ∃ f, s.fieldAtPath path .asWritten = .ok (some f) ∧ s.fieldWithId id = .ok (some f)) ∧
    (∀ id other path, s.pathOf id = .ok (some path) → s.pathOf other = .ok (some path) →
      id = other) ∧
    (∀ name f, s.fieldAtPath name .asWritten = .ok (some f) →
      ∃ path, s.pathOf f.id = .ok (some path) ∧
        s.fieldAtPath path .asWritten = .ok (some f)) ∧
    paths.canonical.length = index.size := by
  refine ⟨fun id path => pathOf_eq_some_iff hids hpaths, fun id => pathOf_eq_none_iff hids hpaths,
    fun id path h => ?_, fun id other path h h' => ?_, fun name f h => ?_,
    length_canonical_eq_size hids hpaths⟩
  · obtain ⟨p, hp, rfl, rfl⟩ := (pathOf_eq_some_iff hids hpaths).1 h
    exact ⟨p.field, fieldAtPath_canonical hids hpaths hp, fieldWithId_id hids hp⟩
  · obtain ⟨p, hp, rfl, rfl⟩ := (pathOf_eq_some_iff hids hpaths).1 h
    obtain ⟨q, hq, rfl, hpath⟩ := (pathOf_eq_some_iff hids hpaths).1 h'
    exact (PathIndex.build_eq_ok_iff.1 hpaths).1 p hp q hq hpath.symm
  · obtain ⟨p, hp, rfl⟩ := exists_place_of_fieldAtPath hids hpaths h
    exact ⟨_, pathOf_eq_ok hids hpaths hp, fieldAtPath_canonical hids hpaths hp⟩

/-- A column has the short path of a field in the structs of a list: the path leads to the column,
and the field is found under its canonical path. -/
theorem canonicalPaths_inverse_dottedName :
    ∃ index paths, idIndex ⟨none, Samples.dottedName⟩ = .ok index ∧
      pathIndex ⟨none, Samples.dottedName⟩ .asWritten = .ok paths ∧
      pathOf ⟨none, Samples.dottedName⟩ 1 = .ok (some "points.element.Foo") ∧
      (∃ f, fieldAtPath ⟨none, Samples.dottedName⟩ "points.element.Foo" .asWritten =
          .ok (some f) ∧ fieldWithId ⟨none, Samples.dottedName⟩ 1 = .ok (some f)) ∧
      (∃ path, pathOf ⟨none, Samples.dottedName⟩ 2 = .ok (some path) ∧
        fieldAtPath ⟨none, Samples.dottedName⟩ path .asWritten =
          fieldAtPath ⟨none, Samples.dottedName⟩ "points.Bar" .asWritten) ∧
      paths.canonical.length = index.size := by
  have hids : idIndex ⟨none, Samples.dottedName⟩ = .ok _ := rfl
  have hpaths : pathIndex ⟨none, Samples.dottedName⟩ .asWritten = .ok _ := rfl
  obtain ⟨-, -, hlead, -, hshort, hsize⟩ := canonicalPaths_inverse hids hpaths
  obtain ⟨path, hpath, hat⟩ := hshort "points.Bar" (.nullable 2 "Bar" (.primitive .string)) rfl
  exact ⟨_, _, hids, hpaths, rfl, hlead 1 _ rfl, ⟨path, hpath, hat⟩, hsize⟩

end Schema
end TableSchema
