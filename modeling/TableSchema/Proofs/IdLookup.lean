import TableSchema.Proofs.FirstCome
import TableSchema.Proofs.Outcome
import TableSchema.Proofs.Slots
import TableSchema.Schema

/-!
# Looking fields up by number

The index of numbers can be built just if no two places have the same number, and then holds every
place once, in order (`IdIndex.build_eq_ok_iff`).  A recorded position leads back to the field that
stands there (`ColumnType.fieldAt?_position`), so what a schema finds under a number is the field of
the one place with that number (`Schema.fieldWithId_eq_ok`).
-/

namespace TableSchema

/-! ## Building the index -/

namespace IdIndex
variable {index index' : IdIndex} {root : ColumnType}

theorem contains_eq_true_iff {id : FieldId} : index.contains id = true ↔ id ∈ index.ids :=
  mem_keys_iff.symm

/-- A place is recorded just if its number is new. -/
theorem record_eq_ok_iff {p : Place} :
    index.record p = .ok index' ↔
      p.id ∉ index.ids ∧ index' = ⟨index.entries ++ [(p.id, p.position)]⟩ := by
  rw [record, ← contains_eq_true_iff]
  cases index.contains p.id with
  | true => simp
  | false => simp [eq_comm]

/-- **Places are recorded one after the other** just if their numbers are new and all different. -/
theorem foldlM_record_eq_ok_iff {ps : List Place} (hindex : index.ids.Nodup) :
    ps.foldlM record index = .ok index' ↔ (index.ids ++ ps.map Place.id).Nodup ∧
      index' = ⟨index.entries ++ ps.map fun p => (p.id, p.position)⟩ := by
  induction ps generalizing index with
  | nil =>
    rw [List.foldlM_nil, List.map_nil, List.map_nil, List.append_nil, List.append_nil]
    exact ⟨fun h => ⟨hindex, (Except.ok.inj h).symm⟩, fun h => congrArg Except.ok h.2.symm⟩
  | cons p ps ih =>
    have hids : ids ⟨index.entries ++ [(p.id, p.position)]⟩ = index.ids ++ [p.id] := by
      simp [ids]
    rw [List.foldlM_cons, bind_eq_ok_iff]
    constructor
    · rintro ⟨index₁, hrecord, hrest⟩
      obtain ⟨hnew, rfl⟩ := record_eq_ok_iff.1 hrecord
      have hnodup : (index.ids ++ [p.id]).Nodup := by
        rw [← List.concat_eq_append]
        exact hindex.concat hnew
      simpa [hids] using (ih (hids ▸ hnodup)).1 hrest
    · rintro ⟨hnodup, rfl⟩
      have hnodup' : (index.ids ++ [p.id] ++ ps.map Place.id).Nodup := by simpa using hnodup
      have hinit := (List.nodup_append.1 hnodup').1
      have hnew : p.id ∉ index.ids := fun hmem =>
        (List.nodup_append.1 hinit).2.2 _ hmem _ (List.mem_singleton_self _) rfl
      refine ⟨_, record_eq_ok_iff.2 ⟨hnew, rfl⟩, (ih (hids ▸ hinit)).2 ⟨?_, ?_⟩⟩
      · rwa [hids]
      · simp

/-- **The index of numbers can be built just if no two places have the same number**, and then holds
every place, in order. -/
theorem build_eq_ok_iff :
    build root = .ok index ↔ (root.places.map Place.id).Nodup ∧
      index = ⟨root.places.map fun p => (p.id, p.position)⟩ :=
  foldlM_record_eq_ok_iff List.nodup_nil

/-- The position recorded for a number is that of the place with the number. -/
theorem position?_of_build (h : build root = .ok index) (id : FieldId) :
    index.position? id = (root.places.find? fun p => p.id = id).map Place.position := by
  obtain ⟨-, rfl⟩ := build_eq_ok_iff.1 h
  exact lookup_map Place.id Place.position root.places id

end IdIndex

/-! ## From positions to fields -/

theorem Field.at?_position {t : ColumnType} {p : Place} (hp : p ∈ t.places) :
    at? t.fields p.position = some p.field := by
  induction t using ColumnType.induction_hops generalizing p with
  | node t ih =>
    have hfield {i : Nat} {h : Hop} (hi : t.hops[i]? = some h) : t.fields[i]? = some h.field := by
      rw [← ColumnType.map_field_hops, List.getElem?_map, hi, Option.map_some]
    obtain ⟨i, h, hi, rfl | ⟨q, hq, rfl⟩⟩ := ColumnType.mem_places.1 hp
    · exact hfield hi
    · rw [Place.position_below, Place.field_below, at?, hfield hi, Option.bind_some]
      · exact ih h (List.mem_of_getElem? hi) hq
      · exact ColumnType.position_ne_nil hq

/-- **The position of a place leads from the top of a struct to its field.** -/
theorem ColumnType.fieldAt?_position {fields : List Field} {p : Place}
    (hp : p ∈ (struct fields).places) : (struct fields).fieldAt? p.position = some p.field :=
  Field.at?_position hp

namespace Schema
variable {s : Schema} {index : IdIndex}

/-- In a schema whose index of numbers can be built a number stands for one place. -/
theorem eq_of_id_eq (h : s.idIndex = .ok index) {p q : Place} (hp : p ∈ s.root.places)
    (hq : q ∈ s.root.places) (hid : p.id = q.id) : p = q :=
  List.inj_on_of_nodup_map (IdIndex.build_eq_ok_iff.1 h).1 hp hq hid

theorem find?_root (h : s.idIndex = .ok index) (id : FieldId) :
    index.find? s.root id = (s.root.places.find? fun p => p.id = id).map Place.field := by
  rw [IdIndex.find?, IdIndex.position?_of_build h]
  cases hfind : s.root.places.find? fun p => p.id = id with
  | none => rfl
  | some p => exact ColumnType.fieldAt?_position (List.mem_of_find?_eq_some hfind)

/-- The place with a number is the one that is found under it. -/
theorem find?_id_eq_some (h : s.idIndex = .ok index) {p : Place} (hp : p ∈ s.root.places) :
    (s.root.places.find? fun q => q.id = p.id) = some p :=
  find?_key_eq_some (IdIndex.build_eq_ok_iff.1 h).1 hp

/-- **What a schema finds under a number is the field of the place with that number.** -/
theorem fieldWithId_eq_ok (h : s.idIndex = .ok index) (id : FieldId) :
    s.fieldWithId id = .ok ((s.root.places.find? fun p => p.id = id).map Place.field) := by
  rw [fieldWithId, h, ← find?_root h]
  rfl

end Schema
end TableSchema
