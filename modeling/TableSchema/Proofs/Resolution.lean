import TableSchema.Proofs.PathWalk
import TableSchema.Schema

/-!
# Which numbers paths stand for

A path stands for the field that the indexes lead to from it, and for none if it is not known.
Several paths stand for the numbers that any of them stands for (`Schema.Resolves`), in whatever
order and however often they are given.  That can fail only for clashes in the schema itself: a
number or a canonical path that two fields share.
-/

namespace TableSchema

namespace SchemaError

/-- A failure for which the schema is to blame: two fields share a number or a canonical path. -/
inductive IsClash : SchemaError → Prop
  | id (id : FieldId) : IsClash (.duplicateId id)
  | path (path : String) (existing conflicting : FieldId) :
    IsClash (.duplicatePath path existing conflicting)

end SchemaError

/-- Building the index of numbers fails only for a number that is there twice. -/
theorem IdIndex.isClash_of_build_eq_error {root : ColumnType} {e : SchemaError}
    (h : IdIndex.build root = .error e) : e.IsClash := by
  obtain ⟨p, -, index, hp⟩ := exists_of_foldlM_eq_error h
  rw [record] at hp
  split at hp
  · cases hp
    exact .id p.id
  · cases hp

/-- Building the index of paths fails only for a canonical path that two fields share. -/
theorem PathIndex.isClash_of_build_eq_error {style : PathStyle} {root : ColumnType}
    {e : SchemaError} (h : PathIndex.build style root = .error e) : e.IsClash := by
  rw [← failure?_eq_some_iff, failure?_build, failure?_eq_some_iff] at h
  obtain ⟨p, -, taken, hp⟩ := exists_of_foldlM_eq_error h
  obtain ⟨id, -, -, rfl⟩ := assign_eq_error_iff.1 hp
  exact .path (style.canonical p) id p.id

namespace Schema
variable {s : Schema} {case : NameCase}

/-- **The numbers that some paths stand for.** -/
def Resolves (s : Schema) (paths : List String) (case : NameCase) (id : FieldId) : Prop :=
  ∃ path ∈ paths, ∃ f, s.fieldAtPath path case = .ok (some f) ∧ f.id = id

/-- A path that the index does not know leads nowhere, whatever becomes of the index of numbers. -/
theorem fieldAtPath_of_unknown {paths : PathIndex} (hpaths : s.pathIndex case = .ok paths)
    {path : String} (hget : paths.get? path = none) : s.fieldAtPath path case = .ok none := by
  rw [fieldAtPath, hpaths]
  change pure paths >>= _ = _
  rw [pure_bind, hget]
  rfl

/-- A path that the index knows leads to the field with the number that it has for the path. -/
theorem fieldAtPath_of_known {paths : PathIndex} (hpaths : s.pathIndex case = .ok paths)
    {path : String} {id : FieldId} (hget : paths.get? path = some id) :
    s.fieldAtPath path case = s.fieldWithId id := by
  rw [fieldAtPath, hpaths]
  change pure paths >>= _ = _
  rw [pure_bind, hget]

/-- A path whose indexes can be built leads to a field or to none. -/
theorem fieldAtPath_eq_ok {ids : IdIndex} {paths : PathIndex} (hids : s.idIndex = .ok ids)
    (hpaths : s.pathIndex case = .ok paths) (path : String) :
    s.fieldAtPath path case = .ok ((paths.get? path).bind (ids.find? s.root)) := by
  cases hget : paths.get? path with
  | none => exact fieldAtPath_of_unknown hpaths hget
  | some id =>
    rw [fieldAtPath_of_known hpaths hget, fieldWithId, hids]
    rfl

/-- **A path leads to a field** if the index knows it and the field has the number that it has for
the path. -/
theorem fieldAtPath_eq_some_iff {paths : PathIndex} (hpaths : s.pathIndex case = .ok paths)
    {path : String} {f : Field} : s.fieldAtPath path case = .ok (some f) ↔
      ∃ id, paths.get? path = some id ∧ s.fieldWithId id = .ok (some f) := by
  cases hget : paths.get? path with
  | none => simp [fieldAtPath_of_unknown hpaths hget]
  | some id => simp [fieldAtPath_of_known hpaths hget]

/-- Where a path leads to a field both indexes can be built. -/
theorem exists_indexes_of_fieldAtPath {name : String} {f : Field}
    (h : s.fieldAtPath name case = .ok (some f)) :
    (∃ index, s.idIndex = .ok index) ∧ ∃ paths, s.pathIndex case = .ok paths := by
  obtain ⟨paths, hpaths, -⟩ := bind_eq_ok_iff.1 h
  obtain ⟨id, -, hid⟩ := (fieldAtPath_eq_some_iff hpaths).1 h
  obtain ⟨index, hindex, -⟩ := bind_eq_ok_iff.1 hid
  exact ⟨⟨index, hindex⟩, paths, hpaths⟩

/-- **A path fails to be looked up** if the index of paths cannot be built, or else if it is known
and the index of numbers cannot be built. -/
theorem fieldAtPath_eq_error_iff {path : String} {e : SchemaError} :
    s.fieldAtPath path case = .error e ↔ s.pathIndex case = .error e ∨
      ∃ paths, s.pathIndex case = .ok paths ∧ (∃ id, paths.get? path = some id) ∧
        s.idIndex = .error e := by
  cases hpaths : s.pathIndex case with
  | error e' =>
    rw [fieldAtPath, hpaths]
    change Except.error e' = _ ↔ _
    simp
  | ok paths =>
    cases hget : paths.get? path with
    | none => simp [fieldAtPath_of_unknown hpaths hget, hget]
    | some id =>
      rw [fieldAtPath_of_known hpaths hget, ← failure?_eq_some_iff, fieldWithId,
        failure?_bind_pure, failure?_eq_some_iff]
      simp [hget]

theorem isClash_of_fieldAtPath_eq_error {path : String} {e : SchemaError}
    (h : s.fieldAtPath path case = .error e) : e.IsClash := by
  rcases fieldAtPath_eq_error_iff.1 h with hpaths | ⟨-, -, -, hids⟩
  · exact PathIndex.isClash_of_build_eq_error hpaths
  · exact IdIndex.isClash_of_build_eq_error hids

/-- **What is found for some paths is what they stand for.** -/
theorem mem_idsAtPaths_iff {paths : List String} {ids : List FieldId}
    (h : s.idsAtPaths paths case = .ok ids) (id : FieldId) :
    id ∈ ids ↔ s.Resolves paths case id := by
  obtain ⟨found, hfound, h⟩ := bind_eq_ok_iff.1 h
  cases h
  simp only [List.mem_filterMap, Option.map_eq_some_iff]
  constructor
  · rintro ⟨field, hfield, f, rfl, hid⟩
    obtain ⟨i, hi⟩ := List.getElem?_of_mem hfield
    have hlt : i < paths.length := by
      rw [← length_of_mapM_eq_ok hfound]
      exact (List.getElem?_eq_some_iff.1 hi).1
    have hpath : paths[i]? = some paths[i] := List.getElem?_eq_getElem hlt
    obtain ⟨field, hfield, hat⟩ := getElem?_of_mapM_eq_ok hfound hpath
    obtain rfl : some f = field := Option.some.inj (hi.symm.trans hfield)
    exact ⟨paths[i], List.getElem_mem hlt, f, hat, hid⟩
  · rintro ⟨path, hpath, f, hat, hid⟩
    obtain ⟨i, hi⟩ := List.getElem?_of_mem hpath
    obtain ⟨field, hfield, hat'⟩ := getElem?_of_mapM_eq_ok hfound hi
    obtain rfl : some f = field := Except.ok.inj (hat.symm.trans hat')
    exact ⟨some f, List.mem_of_getElem? hfield, f, rfl, hid⟩

/-- If the indexes can be built, paths never fail to stand for something. -/
theorem exists_idsAtPaths_eq_ok {ids : IdIndex} {paths : PathIndex} (hids : s.idIndex = .ok ids)
    (hpaths : s.pathIndex case = .ok paths) (names : List String) :
    ∃ found, s.idsAtPaths names case = .ok found := by
  obtain ⟨found, hfound⟩ := exists_mapM_eq_ok fun name (_ : name ∈ names) =>
    ⟨_, fieldAtPath_eq_ok hids hpaths name⟩
  exact ⟨_, bind_eq_ok_iff.2 ⟨found, hfound, rfl⟩⟩

theorem isClash_of_idsAtPaths_eq_error {paths : List String} {e : SchemaError}
    (h : s.idsAtPaths paths case = .error e) : e.IsClash := by
  rw [idsAtPaths, ← failure?_eq_some_iff, failure?_bind_pure, failure?_mapM] at h
  obtain ⟨path, -, hpath⟩ := List.exists_of_findSome?_eq_some h
  exact isClash_of_fieldAtPath_eq_error (failure?_eq_some_iff.1 hpath)

/-! ## Selection by paths -/

/-- The wildcard stands for the whole schema, whatever else is named. -/
theorem select_of_wildcard {names : List String} (h : wildcard ∈ names) :
    s.select names case = .ok ⟨s, .whole⟩ := by
  rw [select, if_pos h]
  rfl

theorem select_eq_bind {names : List String} (h : wildcard ∉ names) :
    s.select names case = s.idsAtPaths names case >>= fun ids => s.prune ⟨ids, .subtree⟩ := by
  rw [select, if_neg h]

end Schema
end TableSchema
