import TableSchema.Proofs.Narrowing
import TableSchema.Samples

/-!
# Projection by numbers

What `Schema.project` does, said without the walk that prunes.  A field is kept by itself if its
number is asked for and it is a leaf, or a struct that is not the side of a map (`Hop.keptItself`).
The projected schema has the fields that are kept by themselves and those above them, and no others.

There are two things that a projection refuses: a list or a map asked for by its own number, and a
map of which just one side is kept or has something kept below.  `Place.projectFault` is the failure
that a place causes, and the projection fails with the first such failure from the bottom up.
-/

namespace TableSchema

namespace Place

/-- Whether a list or a map is asked for here by its own number, and not as the side of a map. -/
def IsRefused (ids : List FieldId) (p : Place) : Prop :=
  p.id ∈ ids ∧ p.hop.role.isMapSide = false ∧
    (p.field.type.isList = true ∨ p.field.type.isMap = true)

instance (ids : List FieldId) (p : Place) : Decidable (p.IsRefused ids) :=
  inferInstanceAs (Decidable (_ ∧ _ ∧ _))

/-- Whether the field here is a map of which just one side is kept by itself or has something below
that is. -/
def IsTorn (ids : List FieldId) (p : Place) : Prop :=
  p.field.type.isHalf (fun _ h => h.keptItself ids) = true

/-- **The failure that a place causes**: first that of a torn map, then that of a field asked for by
its own number. -/
def projectFault (ids : List FieldId) (p : Place) : Option SchemaError :=
  (p.field.type.halfFault fun _ h => h.keptItself ids).or
    (if p.IsRefused ids then some (.listOrMapSelected p.id p.field.name p.field.type) else none)

theorem projectFault_eq_none_iff {ids : List FieldId} {p : Place} :
    p.projectFault ids = none ↔ ¬p.IsRefused ids ∧ ¬p.IsTorn ids := by
  rw [projectFault, Option.or_eq_none_iff, ColumnType.halfFault_eq_none_iff, IsTorn,
    Bool.not_eq_true]
  refine and_comm.trans (and_congr_left fun _ => ?_)
  simp

/-- A failure tells the field that was asked for, or the numbers of both sides of the torn map. -/
theorem exists_of_projectFault_eq_some {ids : List FieldId} {p : Place} {e : SchemaError}
    (h : p.projectFault ids = some e) :
    e = .listOrMapSelected p.id p.field.name p.field.type ∨
      ∃ key value, e = .partialMap key value := by
  rcases Option.or_eq_some_iff.1 h with hhalf | ⟨-, hask⟩
  · obtain ⟨-, keyId, -, valueId, -, -, -, rfl⟩ := (ColumnType.halfFault_eq_some_iff _).1 hhalf
    exact .inr ⟨keyId, valueId, rfl⟩
  · obtain ⟨-, he⟩ := Option.ite_none_right_eq_some.1 hask
    exact .inl (Option.some.inj he).symm

end Place

namespace Selection

/-- With the extent `exact` nothing is kept just for being below something else. -/
theorem inside_exact (ids : List FieldId) (t : ColumnType) (pos : List Nat) :
    inside ⟨ids, .exact⟩ t pos = false := rfl

theorem fault_exact (ids : List FieldId) (t : ColumnType) :
    fault ⟨ids, .exact⟩ t = Place.projectFault ids := by
  funext p
  have hask : askFault ⟨ids, .exact⟩ p.hop =
      if p.IsRefused ids then some (.listOrMapSelected p.id p.field.name p.field.type)
      else none := by
    rw [askFault]
    refine if_congr ?_ rfl rfl
    simp [has, Place.IsRefused, Place.id, Place.field]
  rw [fault, inside_exact, if_neg (by simp), hask]
  rfl

end Selection

namespace Schema

/-- **Projection keeps just the fields kept by themselves and those above them.** -/
theorem project_narrowsTo {s : Schema} {ids : List FieldId} {d : Derived}
    (h : s.project ids = .ok d) :
    d.NarrowsTo s fun pos =>
      s.root.places.any fun q => q.hop.keptItself ids && pos.isPrefixOf q.position := by
  have hnarrow := narrowsTo_of_prune h
  have hkeep : Selection.keeps ⟨ids, .exact⟩ s.root = fun pos =>
      s.root.places.any fun q => q.hop.keptItself ids && pos.isPrefixOf q.position := by
    funext pos
    rw [Selection.keeps, Selection.inside_exact, Bool.or_false]
    rfl
  rwa [hkeep] at hnarrow

/-- The keys of a map and a leaf in a list in its values: the map stays, and in it what leads to
that leaf. -/
theorem project_narrowsTo_mapOfStructs :
    ∃ d, (⟨none, Samples.mapOfStructs⟩ : Schema).project [7, 1] = .ok d ∧
      d.NarrowsTo ⟨none, Samples.mapOfStructs⟩ fun pos =>
        (root ⟨none, Samples.mapOfStructs⟩).places.any fun q =>
          q.hop.keptItself [7, 1] && pos.isPrefixOf q.position :=
  ⟨_, rfl, project_narrowsTo rfl⟩

/-- Asking for a street keeps what leads to it, and the leaf that is not asked for goes. -/
example :
    ((⟨none, Samples.people⟩ : Schema).project [5]).map Derived.schema =
      .ok ⟨none,
        [.nullable 2 "user"
          (.struct
            [.nullable 4 "address" (.struct [.nullable 5 "street" (.primitive .string)])])]⟩ := by
  rfl

/-- A struct asked for by its own number stays, with none of its fields. -/
example :
    ((⟨none, Samples.people⟩ : Schema).project [2]).map Derived.schema =
      .ok ⟨none, [.nullable 2 "user" (.struct [])]⟩ := by
  rfl

theorem project_eq_error_iff {s : Schema} {ids : List FieldId} {e : SchemaError} :
    s.project ids = .error e ↔ s.root.placesUp.findSome? (Place.projectFault ids) = some e := by
  rw [project, prune_eq_error_iff, Selection.fault_exact]

theorem exists_project_eq_error_iff {s : Schema} {ids : List FieldId} :
    (∃ e, s.project ids = .error e) ↔
      (∃ p ∈ s.root.places, p.IsRefused ids) ∨ ∃ p ∈ s.root.places, p.IsTorn ids := by
  simp only [project_eq_error_iff, ← Option.isSome_iff_exists, List.findSome?_isSome_iff]
  simp only [Option.isSome_iff_ne_none, ne_eq, Place.projectFault_eq_none_iff,
    ColumnType.mem_placesUp, ← exists_or, ← and_or_left]
  refine exists_congr fun p => and_congr_right fun _ => ?_
  tauto

/-- Projections that ask for the same leaves, fields of structs and elements of lists are the same.
-/
theorem project_congr {s : Schema} {ids ids' : List FieldId}
    (h : ∀ p ∈ s.root.places, p.hop.role.isMapSide = false ∨ p.field.type.isPrimitive = true →
      (p.id ∈ ids ↔ p.id ∈ ids')) : s.project ids' = s.project ids := by
  refine prune_congr rfl (fun p hp hleaf => ?_) fun hsub => by cases hsub
  exact decide_eq_decide.2 (h p hp hleaf).symm

/-- **Projection fails just at lists and maps asked for by their own number and at torn maps**, and
with the first of these failures from the bottom up.  What is asked for as the side of a map by its
own number makes no difference unless it is a leaf. -/
theorem project_failures (s : Schema) (ids : List FieldId) :
    ((∃ e, s.project ids = .error e) ↔
      (∃ p ∈ s.root.places, p.IsRefused ids) ∨ ∃ p ∈ s.root.places, p.IsTorn ids) ∧
    (∀ e, s.project ids = .error e ↔
      s.root.placesUp.findSome? (Place.projectFault ids) = some e) ∧
    (∀ e, s.project ids = .error e →
      (∃ id name type, e = .listOrMapSelected id name type) ∨
        ∃ key value, e = .partialMap key value) ∧
    ∀ ids', (∀ p ∈ s.root.places, p.hop.role.isMapSide = false ∨ p.field.type.isPrimitive = true →
      (p.id ∈ ids ↔ p.id ∈ ids')) → s.project ids' = s.project ids := by
  refine ⟨exists_project_eq_error_iff, fun e => project_eq_error_iff, fun e he => ?_,
    fun ids' hsame => project_congr hsame⟩
  obtain ⟨p, -, hp⟩ := List.exists_of_findSome?_eq_some (project_eq_error_iff.1 he)
  rcases Place.exists_of_projectFault_eq_some hp with rfl | hmap
  · exact .inl ⟨_, _, _, rfl⟩
  · exact .inr hmap

/-- A map cannot be asked for by its own number. -/
example :
    (⟨none, Samples.mapOfLists⟩ : Schema).project [7] =
      .error (.listOrMapSelected 7 "Value"
        (.map 5 (.primitive .int) 6 Samples.capitalsList false)) := by
  rfl

/-- The keys of a map cannot be had without its values. -/
example : (⟨none, Samples.mapOfLists⟩ : Schema).project [5] = .error (.partialMap 5 6) := by
  rfl

end Schema
end TableSchema
