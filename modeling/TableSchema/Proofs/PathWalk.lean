import TableSchema.PathIndex
import TableSchema.Proofs.FirstCome
import TableSchema.Proofs.Outcome
import TableSchema.Proofs.Slots

/-!
# The walk that collects paths

The walk has at each slot the segments above it in hand (`Trail`).  They are the segments of the way
that leads there, so the paths that it records are those of the places of the type, one place after
the other (`ColumnType.recordPaths_eq_foldlM_places`): on the way down a segment moves from the way
of the places below a slot to the trail above them, and the paths stay as they are.

The index can then be read without the walk (`PathIndex.build_eq_foldlM`).  Its canonical paths are
assigned to the places in turn, and its short paths offered to them when the canonical ones are
known, although the walk does both at once and compares the two tables in the end.
-/

namespace TableSchema

/-! ## Paths below a trail -/

/-- Joining a segment to those above it puts dots between them all. -/
theorem PathStyle.join_eq_intercalate (above : List String) (segment : String) :
    join above segment = ".".intercalate (above ++ [segment]) := by
  cases above with
  | nil => exact String.intercalate_singleton.symm
  | cons first rest =>
    rw [String.intercalate_append_of_ne_nil (List.cons_ne_nil first rest)
      (List.cons_ne_nil segment []), String.intercalate_singleton]
    rfl

namespace Trail
variable (trail : Trail) (style : PathStyle)

/-- The canonical path of a place below a trail. -/
def canonicalBelow (p : Place) : String :=
  ".".intercalate (trail.canonical ++ p.way.map style.segment)

/-- The short path of a place below a trail. -/
def shortBelow (p : Place) : String :=
  ".".intercalate (trail.short ++ p.shortWay.map style.segment)

@[simp] theorem canonicalBelow_top (p : Place) : top.canonicalBelow style p = style.canonical p :=
  rfl

@[simp] theorem shortBelow_top (p : Place) : top.shortBelow style p = style.short p := rfl

/-- A slot itself has the path that the walk makes for it. -/
@[simp] theorem canonicalBelow_child (i : Nat) (h : Hop) :
    trail.canonicalBelow style (.child i h) = trail.canonicalPath style h :=
  (PathStyle.join_eq_intercalate _ _).symm

@[simp] theorem shortBelow_child (i : Nat) (h : Hop) :
    trail.shortBelow style (.child i h) = trail.shortPath style h := by
  rw [shortBelow, shortPath, Place.shortWay, Place.way_child, List.filter_singleton,
    PathStyle.join_eq_intercalate]
  cases h.isElided with
  | true => exact congrArg _ (List.append_nil _)
  | false => rfl

/-- **Going down a slot does not change the paths of the places below it.** -/
@[simp] theorem canonicalBelow_below (i : Nat) (h : Hop) (p : Place) :
    trail.canonicalBelow style (p.below i h) = (trail.enter style h).canonicalBelow style p := by
  rw [canonicalBelow, canonicalBelow, enter, Place.way_below, List.map_cons, List.append_assoc]
  rfl

@[simp] theorem shortBelow_below (i : Nat) (h : Hop) (p : Place) :
    trail.shortBelow style (p.below i h) = (trail.enter style h).shortBelow style p := by
  rw [shortBelow, shortBelow, enter, Place.shortWay, Place.way_below, List.filter_cons,
    Place.shortWay]
  cases h.isElided with
  | true => rfl
  | false => exact congrArg _ (List.append_assoc trail.short [style.segment h] _).symm

end Trail

/-! ## The walk, slot by slot and place by place -/

namespace PathTables
variable (style : PathStyle) (trail : Trail) (tables : PathTables)

/-- Records a place below a trail. -/
def recordBelow (p : Place) : Except SchemaError PathTables :=
  tables.record (trail.canonicalBelow style p) (trail.shortBelow style p) p.id

theorem recordBelow_child (i : Nat) (h : Hop) : tables.recordBelow style trail (.child i h) =
    tables.record (trail.canonicalPath style h) (trail.shortPath style h) h.field.id := by
  rw [recordBelow, Trail.canonicalBelow_child, Trail.shortBelow_child]
  rfl

theorem recordBelow_below (i : Nat) (h : Hop) (p : Place) :
    tables.recordBelow style trail (p.below i h) =
      tables.recordBelow style (trail.enter style h) p := by
  rw [recordBelow, Trail.canonicalBelow_below, Trail.shortBelow_below]
  rfl

end PathTables

/-- The walk goes through the fields of a struct one after the other, under the same trail. -/
theorem Field.recordPathsEach_eq_foldlM (style : PathStyle) (fields : List Field) (trail : Trail)
    (tables : PathTables) :
    recordPathsEach style fields trail tables = fields.foldlM (fun tables f =>
      Hop.recordPaths ⟨.structField, f⟩ style trail (f.type.recordPaths style) tables) tables := by
  induction fields generalizing tables with
  | nil =>
    rw [recordPathsEach, List.foldlM_nil]
    rfl
  | cons f fields ih =>
    cases f
    rw [recordPathsEach, List.foldlM_cons]
    exact bind_congr fun first => ih first

/-- **The walk of a type goes through its slots** one after the other, under the same trail. -/
theorem ColumnType.recordPaths_eq_foldlM_hops (style : PathStyle) (t : ColumnType) (trail : Trail)
    (tables : PathTables) :
    t.recordPaths style trail tables = t.hops.foldlM (fun tables h =>
      h.recordPaths style trail (h.field.type.recordPaths style) tables) tables := by
  cases t with
  | primitive p =>
    rw [recordPaths, hops, List.foldlM_nil]
    rfl
  | struct fields =>
    rw [recordPaths, hops, List.foldlM_map]
    exact Field.recordPathsEach_eq_foldlM style fields trail tables
  | list id type optional => simp [recordPaths, hops, Field.element]
  | map keyId key valueId value optional => simp [recordPaths, hops, Field.mapKey, Field.mapValue]

/-- **The walk at a slot records the places in and below it**, if the walk of the type in the slot
records the places of that type. -/
theorem Hop.recordPaths_eq_foldlM_places {style : PathStyle} {h : Hop} {inside : List Place}
    {walk : Trail → PathTables → Except SchemaError PathTables}
    (hwalk : ∀ trail tables,
      walk trail tables = inside.foldlM (PathTables.recordBelow style trail) tables)
    (i : Nat) (trail : Trail) (tables : PathTables) :
    h.recordPaths style trail walk tables =
      (h.places i inside).foldlM (PathTables.recordBelow style trail) tables := by
  rw [recordPaths, places, List.foldlM_cons, PathTables.recordBelow_child]
  refine bind_congr fun recorded => ?_
  rw [hwalk, List.foldlM_map]
  exact foldlM_congr (fun p _ tables => (tables.recordBelow_below style trail i h p).symm) recorded

/-- **The walk of a type records all its places in turn.** -/
theorem ColumnType.recordPaths_eq_foldlM_places (style : PathStyle) (t : ColumnType) (trail : Trail)
    (tables : PathTables) :
    t.recordPaths style trail tables =
      t.places.foldlM (PathTables.recordBelow style trail) tables := by
  induction t using induction_hops generalizing trail tables with
  | node t ih =>
    -- The numbers of the slots matter to the places but not to the walk.
    rw [recordPaths_eq_foldlM_hops, ← List.zipIdx_map_fst 0 t.hops, List.foldlM_map,
      places_eq_flatMap, foldlM_flatMap]
    refine foldlM_congr (fun slot hslot tables => ?_) tables
    have hh : slot.1 ∈ t.hops := List.fst_mem_of_mem_zipIdx hslot
    exact Hop.recordPaths_eq_foldlM_places (ih slot.1 hh) slot.2 trail tables

/-! ## The two tables, place by place -/

namespace PathStyle
variable (style : PathStyle)

/-- The canonical path of a place with its number. -/
def canonicalEntry (p : Place) : String × FieldId := (style.canonical p, p.id)

/-- The short path of a place with its number. -/
def shortEntry (p : Place) : String × FieldId := (style.short p, p.id)

end PathStyle

namespace PathIndex
variable {style : PathStyle} {p : Place}

/-- Gives the canonical path of a place to its field, unless another field has it. -/
def assign (style : PathStyle) (taken : List (String × FieldId)) (p : Place) :
    Except SchemaError (List (String × FieldId)) :=
  PathTables.addCanonical taken (style.canonical p) p.id

/-- Gives a short path to a field, unless it is canonical or another field has it already. -/
def offer (style : PathStyle) (canonical taken : List (String × FieldId)) (p : Place) :
    List (String × FieldId) :=
  if ((canonical ++ taken).lookup (style.short p)).isSome then taken
  else taken ++ [(style.short p, p.id)]

/-- A canonical path is assigned just if it is new or belongs to the same number. -/
theorem assign_eq_ok_iff {taken taken' : List (String × FieldId)} :
    assign style taken p = .ok taken' ↔
      (taken ++ [style.canonicalEntry p]).lookup (style.canonical p) = some p.id ∧
        taken' = insertNew taken (style.canonicalEntry p) := by
  rw [assign, PathTables.addCanonical, insertNew, PathStyle.canonicalEntry, List.lookup_append]
  cases taken.lookup (style.canonical p) with
  | none => simp [eq_comm]
  | some id =>
    by_cases hid : id = p.id
    · simp [hid, eq_comm]
    · simp [hid]

/-- A canonical path is refused just if a place with another number has it. -/
theorem assign_eq_error_iff {taken : List (String × FieldId)} {e : SchemaError} :
    assign style taken p = .error e ↔
      ∃ id, taken.lookup (style.canonical p) = some id ∧ id ≠ p.id ∧
        e = .duplicatePath (style.canonical p) id p.id := by
  rw [assign, PathTables.addCanonical]
  cases taken.lookup (style.canonical p) with
  | none => simp
  | some id =>
    by_cases hid : id = p.id
    · simp [hid]
    · simp [hid, eq_comm]

end PathIndex

namespace PathTables
variable (style : PathStyle) (canonical taken : List (String × FieldId))

/-- **Recording places from the top** assigns the canonical paths and keeps the first field with
each short path. -/
theorem foldlM_recordBelow_top (ps : List Place) (tables : PathTables) :
    ps.foldlM (PathTables.recordBelow style .top) tables = (do
      let canonical ← ps.foldlM (PathIndex.assign style) tables.canonical
      return ⟨canonical, (ps.map style.shortEntry).foldl insertNew tables.short⟩) := by
  induction ps generalizing tables with
  | nil => rfl
  | cons p ps ih =>
    have hrecord : tables.recordBelow style .top p = (do
        let canonical ← PathIndex.assign style tables.canonical p
        return ⟨canonical, insertNew tables.short (style.shortEntry p)⟩) := by
      rw [recordBelow, Trail.canonicalBelow_top, Trail.shortBelow_top]
      rfl
    rw [List.foldlM_cons, List.foldlM_cons, hrecord]
    cases PathIndex.assign style tables.canonical p with
    | error e => rfl
    | ok canonical => exact ih _

/-- Without the canonical paths, a table of short paths grows by those that are offered. -/
theorem onlyShort_insertNew (p : Place) :
    onlyShort ⟨canonical, insertNew taken (style.shortEntry p)⟩ =
      PathIndex.offer style canonical (onlyShort ⟨canonical, taken⟩) p := by
  rw [PathIndex.offer, List.lookup_append, onlyShort, onlyShort,
    lookup_filter_key (fun path => (canonical.lookup path).isNone), insertNew,
    PathStyle.shortEntry]
  cases hcanonical : canonical.lookup (style.short p) with
  | some id =>
    -- The path is not offered, and the walk's entry for it is not left in the end.
    cases taken.lookup (style.short p) <;> simp [hcanonical]
  | none =>
    cases taken.lookup (style.short p) <;> simp [hcanonical]

/-- **Comparing the tables in the end** leaves the short paths that the places have when they are
offered with the canonical paths known. -/
theorem onlyShort_foldl_insertNew (ps : List Place) :
    onlyShort ⟨canonical, (ps.map style.shortEntry).foldl insertNew taken⟩ =
      ps.foldl (PathIndex.offer style canonical) (onlyShort ⟨canonical, taken⟩) := by
  induction ps generalizing taken with
  | nil => rfl
  | cons p ps ih => rw [List.map_cons, List.foldl_cons, List.foldl_cons, ih, onlyShort_insertNew]

end PathTables

namespace PathIndex

/-- **The index without the walk**: the canonical paths are assigned to the places in turn, and then
the short paths are offered to them. -/
theorem build_eq_foldlM (style : PathStyle) (root : ColumnType) :
    build style root = (do
      let canonical ← root.places.foldlM (assign style) []
      return ⟨style.case, canonical, root.places.foldl (offer style canonical) []⟩) := by
  rw [build, ColumnType.recordPaths_eq_foldlM_places, PathTables.foldlM_recordBelow_top, bind_assoc]
  refine bind_congr fun canonical => ?_
  rw [pure_bind, PathTables.onlyShort_foldl_insertNew]
  rfl

/-- Building fails as assigning the canonical paths does. -/
theorem failure?_build (style : PathStyle) (root : ColumnType) :
    failure? (build style root) = failure? (root.places.foldlM (assign style) []) := by
  rw [build_eq_foldlM]
  exact failure?_bind_pure _ _

end PathIndex
end TableSchema
