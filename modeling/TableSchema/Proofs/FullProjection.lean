import TableSchema.Proofs.Projection
import TableSchema.Proofs.RepeatedSelection
import TableSchema.Proofs.Sharing

/-!
# Projecting everything

Lists and maps cannot be asked for by their own numbers, so everything that a projection can be
asked for are the leaves and the structs (`Schema.projectableIds`).  Asking for all of them gives
the schema back (`Schema.project_everything`), if fields have different numbers and no map has an
empty struct for a key or a value.  A side of a map counts by what is below it unless it is a leaf,
so an empty struct there would be a side of which nothing is kept.

A type of which all leaves and structs are asked for is filled (`ColumnType.Covered.filled`): going
down from any slot one comes to a field that is kept by itself.  So every place is kept and no map
is torn.
-/

namespace TableSchema

/-- A type without slots is a leaf or the empty struct. -/
theorem ColumnType.hops_ne_nil {t : ColumnType} (hleaf : t.isPrimitive = false)
    (hfull : t ≠ .struct []) : t.hops ≠ [] := by
  intro hnil
  cases t with
  | primitive p => cases hleaf
  | struct fields => exact hfull (congrArg struct (List.map_eq_nil_iff.1 hnil))
  | list id type optional => cases hnil
  | map keyId key valueId value optional => cases hnil

/-- **A type of which everything is asked for**: all its leaves and structs are, and no map in it
has an empty struct for one of its sides. -/
structure ColumnType.Covered (ids : List FieldId) (t : ColumnType) : Prop where
  id_mem : ∀ p ∈ t.places, p.field.type.isPrimitive = true ∨ p.field.type.isStruct = true →
    p.id ∈ ids
  side_ne_empty : ∀ p ∈ t.places, p.hop.role.isMapSide = true → p.field.type ≠ .struct []

namespace ColumnType.Covered
variable {ids : List FieldId} {t : ColumnType}

/-- The type of every field is covered with the type that the field is in. -/
theorem below (ht : t.Covered ids) {p : Place} (hp : p ∈ t.places) :
    p.field.type.Covered ids := by
  constructor
  · intro r hr hkind
    obtain ⟨q, hq, -, hhop, -⟩ := exists_place_append hp hr
    have hid := ht.id_mem q hq
    rw [Place.id, Place.field, hhop] at hid
    exact hid hkind
  · intro r hr hside
    obtain ⟨q, hq, -, hhop, -⟩ := exists_place_append hp hr
    have hfull := ht.side_ne_empty q hq
    rw [Place.field, hhop] at hfull
    exact hfull hside

theorem slot (ht : t.Covered ids) {h : Hop} (hh : h ∈ t.hops) : h.field.type.Covered ids := by
  obtain ⟨i, hi⟩ := List.getElem?_of_mem hh
  exact ht.below (child_mem_places hi)

/-- A slot that is not kept by itself has slots below it. -/
theorem hops_ne_nil_of_not_keptItself (ht : t.Covered ids) {h : Hop} (hh : h ∈ t.hops)
    (hkept : h.keptItself ids = false) : h.field.type.hops ≠ [] := by
  obtain ⟨i, hi⟩ := List.getElem?_of_mem hh
  have hplace : Place.child i h ∈ t.places := child_mem_places hi
  have hid : h.field.type.isPrimitive = true ∨ h.field.type.isStruct = true → h.field.id ∈ ids :=
    ht.id_mem _ hplace
  by_cases hleaf : h.field.type.isPrimitive = true
  · simp [Hop.keptItself, hid (.inl hleaf), hleaf] at hkept
  · refine hops_ne_nil (Bool.eq_false_iff.2 hleaf) ?_
    intro hempty
    have hstruct : h.field.type.isStruct = true := by
      rw [hempty]
      rfl
    by_cases hside : h.role.isMapSide = true
    · exact ht.side_ne_empty _ hplace hside hempty
    · simp [Hop.keptItself, hid (.inr hstruct), hstruct, hside] at hkept

/-- **What is covered is filled.** -/
theorem filled (ht : t.Covered ids) : t.Filled fun _ h => h.keptItself ids := by
  induction t using induction_hops with
  | node t ih =>
    exact .node (fun h hh hkept => ht.hops_ne_nil_of_not_keptItself hh hkept)
      fun h hh _ => ih h hh (ht.slot hh)

/-- **Every place of what is covered is kept.** -/
theorem keeps_eq_true (ht : t.Covered ids) {p : Place} (hp : p ∈ t.places) :
    Selection.keeps ⟨ids, .exact⟩ t p.position = true := by
  induction t using induction_hops generalizing p with
  | node t ih =>
    obtain ⟨i, h, hi, rfl | ⟨q, hq, rfl⟩⟩ := mem_places.1 hp
    · have hh : h ∈ t.hops := List.mem_of_getElem? hi
      rw [Place.position_child, Selection.keeps_singleton hi]
      exact ht.filled.leads_eq_true hh
    · have hh : h ∈ t.hops := List.mem_of_getElem? hi
      rw [Place.position_below, Selection.keeps_cons hi, ih h hh (ht.slot hh) hq, Bool.or_true]

/-- Pruning what is covered leaves it as it is, and keeps the node if there are no empty structs. -/
theorem eq_whole_of_prune (ht : t.Covered ids) {cut : Option Cut}
    (h : t.prune ⟨ids, .exact⟩ = .ok cut) (hslots : t.hops ≠ [])
    (hfull : ∀ p ∈ t.places, p.field.type ≠ .struct []) : cut = some .whole := by
  have hsettles := settles_of_prune h
  obtain ⟨slot, hslot⟩ := List.exists_mem_of_ne_nil _ hslots
  have hsome : cut.isSome = true := by
    rw [hsettles.isSome_eq, finds_eq_any, List.any_eq_true]
    exact ⟨slot, hslot, ht.filled.leads_eq_true hslot⟩
  obtain ⟨c, rfl⟩ := Option.isSome_iff_exists.1 hsome
  have hsame : t.restrict c = t := by
    rw [(hsettles.leaves c rfl).restrict_eq]
    exact keepOnly_eq_self fun p hp => ht.keeps_eq_true hp
  rw [(tight_of_prune h fun _ => hfull).eq_whole hsame]

end ColumnType.Covered

namespace Schema
variable {s : Schema} {ids : List FieldId}

/-- The numbers of all leaves and structs of a schema, however deep down and be they sides of a map.
-/
def projectableIds (s : Schema) : List FieldId :=
  (s.root.places.filter fun p => p.field.type.isPrimitive || p.field.type.isStruct).map Place.id

theorem mem_projectableIds {id : FieldId} : id ∈ s.projectableIds ↔
    ∃ p ∈ s.root.places, (p.field.type.isPrimitive = true ∨ p.field.type.isStruct = true) ∧
      p.id = id := by
  simp only [projectableIds, List.mem_map, List.mem_filter, Bool.or_eq_true, and_assoc]

/-- If no other numbers are asked for and every number is that of one field only, nothing that is
asked for is refused. -/
theorem not_isRefused (hnodup : (s.root.places.map Place.id).Nodup)
    (hids : ∀ id ∈ ids, id ∈ s.projectableIds) {p : Place} (hp : p ∈ s.root.places) :
    ¬p.IsRefused ids := by
  rintro ⟨hid, -, hkind⟩
  obtain ⟨q, hq, hasked, hsame⟩ := mem_projectableIds.1 (hids p.id hid)
  obtain rfl : q = p := List.inj_on_of_nodup_map hnodup hq hp hsame
  have hrefused : q.field.type.kind = .list ∨ q.field.type.kind = .map :=
    hkind.imp of_decide_eq_true of_decide_eq_true
  rcases hasked with hprim | hstruct
  · simp [of_decide_eq_true hprim] at hrefused
  · simp [of_decide_eq_true hstruct] at hrefused

/-- **Projecting everything succeeds**, if no map has an empty struct for one of its sides. -/
theorem exists_project_eq_ok (hnodup : (s.root.places.map Place.id).Nodup)
    (hids : ∀ id ∈ ids, id ∈ s.projectableIds) (hroot : s.root.Covered ids) :
    ∃ d, s.project ids = .ok d := by
  rw [← failure?_eq_none_iff, Option.eq_none_iff_forall_ne_some]
  intro e he
  have herror : ∃ e, s.project ids = .error e := ⟨e, failure?_eq_some_iff.1 he⟩
  rcases exists_project_eq_error_iff.1 herror with ⟨p, hp, hrefused⟩ | ⟨p, hp, htorn⟩
  · exact not_isRefused hnodup hids hp hrefused
  · have hwhole : p.field.type.isHalf (fun _ h => h.keptItself ids) = false :=
      (hroot.below hp).filled.isHalf_eq_false
    rw [Place.IsTorn, hwhole] at htorn
    cases htorn

/-- **Projecting everything that can be asked for is the identity.**  If fields have different
numbers and no map has an empty struct for a key or a value, then asking for all leaves and structs
succeeds and gives the schema that was there.  If there is no empty struct at all, be it the schema
without columns, the columns are not even copied. -/
theorem project_everything (hnodup : (s.root.places.map Place.id).Nodup)
    (hsides : ∀ p ∈ s.root.places, p.hop.role.isMapSide = true → p.field.type ≠ .struct [])
    (hids : ∀ id, id ∈ ids ↔ id ∈ s.projectableIds) :
    ∃ d, s.project ids = .ok d ∧ d.schema = s ∧
      (s.root ≠ .struct [] → (∀ p ∈ s.root.places, p.field.type ≠ .struct []) →
        d.cut = .whole) := by
  have hroot : s.root.Covered ids := {
    id_mem := fun p hp hkind => (hids p.id).2 (mem_projectableIds.2 ⟨p, hp, hkind, rfl⟩)
    side_ne_empty := hsides }
  obtain ⟨d, hd⟩ := exists_project_eq_ok hnodup (fun id => (hids id).1) hroot
  have hnarrow := narrowsTo_of_prune hd
  have hsame : d.schema.root = s.root := by
    rw [hnarrow.root_eq]
    exact ColumnType.keepOnly_eq_self fun p hp => hroot.keeps_eq_true hp
  refine ⟨d, hd, ?_, fun hcolumns hfull => ?_⟩
  · have hfields : d.schema.fields = s.fields := ColumnType.struct.inj hsame
    calc d.schema = ⟨d.schema.schemaId, d.schema.fields⟩ := rfl
      _ = ⟨s.schemaId, s.fields⟩ := by rw [hnarrow.schemaId_eq, hfields]
  · obtain ⟨cut, hcut, hd⟩ := bind_eq_ok_iff.1 hd
    have hslots : s.root.hops ≠ [] := ColumnType.hops_ne_nil rfl hcolumns
    obtain rfl := hroot.eq_whole_of_prune hcut hslots hfull
    cases hd
    rfl

/-- The leaves and structs of a map of structs that hold a list: the struct that is the value of the
map counts among them, the map and the list do not. -/
theorem project_everything_mapOfStructs :
    projectableIds ⟨none, Samples.mapOfStructs⟩ = [7, 8, 5, 4, 1, 2, 3] ∧
    ∃ d, project ⟨none, Samples.mapOfStructs⟩ [3, 2, 1, 4, 5, 8, 7] = .ok d ∧
      d.schema = ⟨none, Samples.mapOfStructs⟩ ∧ d.cut = .whole := by
  have hids : projectableIds ⟨none, Samples.mapOfStructs⟩ = [7, 8, 5, 4, 1, 2, 3] := rfl
  have hasked (id : FieldId) :
      id ∈ [3, 2, 1, 4, 5, 8, 7] ↔ id ∈ projectableIds ⟨none, Samples.mapOfStructs⟩ := by
    rw [hids, ← List.mem_reverse]
    rfl
  obtain ⟨d, hd, hschema, hcut⟩ := project_everything (by decide) (by decide) hasked
  exact ⟨hids, d, hd, hschema, hcut (by decide) (by decide)⟩

/-- An empty struct for the values of a map makes the same projection fail, as nothing is kept of
them. -/
example : project ⟨none, [.required 1 "Map" (.map 2 (.primitive .int) 3 (.struct []) false)]⟩
    [2, 3] = .error (.partialMap 2 3) := by
  rfl

end Schema
end TableSchema
