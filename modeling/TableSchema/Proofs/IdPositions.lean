import Mathlib.Data.List.Nodup
import TableSchema.Proofs.IdLookup
import TableSchema.Samples

/-!
# The index of numbers and the positions of a type

A position is a list of child numbers, and following it from the top either leads to a field or
leads nowhere.  The places of a type are in one-to-one correspondence with the positions that lead
to a field (`Field.at?_eq_some_iff`, `ColumnType.nodup_map_position`).  The index of numbers is
built from the places, so if it can be built it holds each of these positions once, under the number
of the field that the position leads to (`IdIndex.Records`).  If it cannot, it reports the number of
the first place whose number an earlier place has (`IdIndex.build_eq_error_iff`).
-/

namespace TableSchema

/-! ## Positions and places -/

/-- A field is as deep down as there are slots on the way to it. -/
theorem Place.depth_eq_length_way {t : ColumnType} {p : Place} (hp : p ∈ t.places) :
    p.depth = p.way.length := by
  induction t using ColumnType.induction_hops generalizing p with
  | node t ih =>
    obtain ⟨i, h, hi, rfl | ⟨q, hq, rfl⟩⟩ := ColumnType.mem_places.1 hp
    · rfl
    · have hdepth := ih h (List.mem_of_getElem? hi) hq
      rw [depth, position_below, way_below, List.length_cons, List.length_cons]
      exact congrArg (· + 1) hdepth

/-- **A position leads to a field just if the field has a place with that position.** -/
theorem Field.at?_eq_some_iff {t : ColumnType} {pos : List Nat} {f : Field} :
    at? t.fields pos = some f ↔ ∃ p ∈ t.places, p.position = pos ∧ p.field = f := by
  constructor
  · intro h
    induction pos generalizing t with
    | nil => cases h
    | cons i rest ih =>
      have hhop {g : Field} (hg : t.fields[i]? = some g) :
          ∃ hop, t.hops[i]? = some hop ∧ hop.field = g := by
        rwa [← ColumnType.map_field_hops, List.getElem?_map, Option.map_eq_some_iff] at hg
      cases rest with
      | nil =>
        obtain ⟨hop, hi, rfl⟩ := hhop h
        exact ⟨_, ColumnType.child_mem_places hi, rfl, rfl⟩
      | cons j rest =>
        obtain ⟨g, hg, h⟩ := Option.bind_eq_some_iff.1 h
        obtain ⟨hop, hi, rfl⟩ := hhop hg
        obtain ⟨q, hq, hpos, hfield⟩ := ih h
        exact ⟨q.below i hop, ColumnType.below_mem_places hi hq, by simp [hpos], hfield⟩
  · rintro ⟨p, hp, rfl, rfl⟩
    exact at?_position hp

/-- The positions in and below a slot go through it: first that of the slot, then those below. -/
theorem Hop.map_position_places (h : Hop) (i : Nat) (inside : List Place) :
    (h.places i inside).map Place.position = [i] :: inside.map fun q => i :: q.position := by
  rw [Hop.places, List.map_cons, List.map_map]
  rfl

/-- **No two places have the same position.** -/
theorem ColumnType.nodup_map_position (t : ColumnType) : (t.places.map Place.position).Nodup := by
  induction t using induction_hops with
  | node t ih =>
    rw [places_eq_flatMap, List.map_flatMap, List.nodup_flatMap]
    simp only [Hop.map_position_places]
    constructor
    · rintro ⟨h, i⟩ hi
      have hh : h ∈ t.hops := List.mem_of_getElem? (List.mem_zipIdx_iff_getElem?.1 hi)
      refine List.nodup_cons.2 ⟨fun hmem => ?_, ?_⟩
      · obtain ⟨q, hq, hpos⟩ := List.mem_map.1 hmem
        exact position_ne_nil hq (List.cons.inj hpos).2
      · have hinside := (ih h hh).map (List.cons_injective (a := i))
        rwa [List.map_map] at hinside
    · -- Positions through different slots differ in their first number.
      have hslots : t.hops.zipIdx.Pairwise fun x y => x.2 ≠ y.2 := by
        rw [← List.pairwise_map, List.zipIdx_map_snd]
        exact List.nodup_range'
      refine hslots.imp fun {x y} hne pos hx hy => hne ?_
      have hhead {x : Hop × Nat} (hx : pos ∈ [x.2] :: x.1.field.type.places.map
          fun q => x.2 :: q.position) : pos.head? = some x.2 := by
        rcases List.mem_cons.1 hx with rfl | hx
        · rfl
        · obtain ⟨q, -, rfl⟩ := List.mem_map.1 hx
          rfl
      exact Option.some.inj ((hhead hx).symm.trans (hhead hy))

namespace IdIndex
variable {index index' : IdIndex} {root : ColumnType}

/-! ## Building that fails -/

theorem record_eq_error_iff {p : Place} {e : SchemaError} :
    index.record p = .error e ↔ p.id ∈ index.ids ∧ e = .duplicateId p.id := by
  rw [record, ← contains_eq_true_iff]
  cases index.contains p.id with
  | true => simp [eq_comm]
  | false => simp

/-- **Recording places one after the other fails at the first one whose number is taken**, by the
index or by a place before it. -/
theorem foldlM_record_eq_error_iff {ps : List Place} {e : SchemaError} (hindex : index.ids.Nodup) :
    ps.foldlM record index = .error e ↔ ∃ before p after, ps = before ++ p :: after ∧
      (index.ids ++ before.map Place.id).Nodup ∧ p.id ∈ index.ids ++ before.map Place.id ∧
      e = .duplicateId p.id := by
  have hids (before : List Place) :
      ids ⟨index.entries ++ before.map fun p => (p.id, p.position)⟩ =
        index.ids ++ before.map Place.id := by
    simp [ids]
  rw [foldlM_eq_error_iff]
  constructor
  · rintro ⟨before, p, after, index', rfl, hbefore, hfails⟩
    obtain ⟨hnodup, rfl⟩ := (foldlM_record_eq_ok_iff hindex).1 hbefore
    obtain ⟨htaken, rfl⟩ := record_eq_error_iff.1 hfails
    exact ⟨before, p, after, rfl, hnodup, hids before ▸ htaken, rfl⟩
  · rintro ⟨before, p, after, rfl, hnodup, htaken, rfl⟩
    refine ⟨before, p, after, _, rfl, (foldlM_record_eq_ok_iff hindex).2 ⟨hnodup, rfl⟩, ?_⟩
    exact record_eq_error_iff.2 ⟨(hids before).symm ▸ htaken, rfl⟩

/-- **Building the index fails with the number of the first place whose number an earlier place
has.** -/
theorem build_eq_error_iff {e : SchemaError} :
    build root = .error e ↔ ∃ before p after, root.places = before ++ p :: after ∧
      (before.map Place.id).Nodup ∧ p.id ∈ before.map Place.id ∧ e = .duplicateId p.id :=
  foldlM_record_eq_error_iff List.nodup_nil

/-! ## Building that succeeds -/

/-- **An index that holds every field of a type once**, under its number and with its position. -/
structure Records (index : IdIndex) (root : ColumnType) : Prop where
  /-- What is recorded for a number is the position that leads to a field with the number. -/
  position?_eq_some_iff : ∀ id pos, index.position? id = some pos ↔
    ∃ f, Field.at? root.fields pos = some f ∧ f.id = id
  /-- The recorded positions are those that lead to a field, each of them once. -/
  nodup_positions : (index.entries.map Prod.snd).Nodup
  mem_positions_iff : ∀ pos, pos ∈ index.entries.map Prod.snd ↔
    (Field.at? root.fields pos).isSome = true
  /-- There are as many entries as fields. -/
  size_eq : index.size = root.places.length
  contains_iff : ∀ id, index.contains id = true ↔ ∃ p ∈ root.places, p.id = id
  /-- Every place is recorded with its position, which is as long as the place is deep down. -/
  position?_id : ∀ p ∈ root.places, index.position? p.id = some p.position
  depth_eq : ∀ p ∈ root.places, p.depth = p.way.length
  /-- In a struct a number is looked up to the one field that has it, with all that is below. -/
  find?_eq_some_iff : root.isStruct = true → ∀ id f, index.find? root id = some f ↔
    ∃ p ∈ root.places, p.field = f ∧ p.id = id
  /-- The greatest number is that of a field, and no field has a greater one. -/
  highest?_eq_some_iff : ∀ id, index.highest? = some id ↔
    (∃ p ∈ root.places, p.id = id) ∧ ∀ p ∈ root.places, p.id ≤ id
  highest?_eq_none_iff : index.highest? = none ↔ root.places = []

theorem ids_of_build (h : build root = .ok index) : index.ids = root.places.map Place.id := by
  obtain ⟨-, rfl⟩ := build_eq_ok_iff.1 h
  rw [ids, List.map_map]
  rfl

theorem positions_of_build (h : build root = .ok index) :
    index.entries.map Prod.snd = root.places.map Place.position := by
  obtain ⟨-, rfl⟩ := build_eq_ok_iff.1 h
  rw [List.map_map]
  rfl

/-- The position recorded for the number of a place is that of the place. -/
theorem position?_id_of_build (h : build root = .ok index) {p : Place} (hp : p ∈ root.places) :
    index.position? p.id = some p.position := by
  rw [position?_of_build h, find?_key_eq_some (build_eq_ok_iff.1 h).1 hp, Option.map_some]

theorem position?_eq_some_iff_of_build (h : build root = .ok index) {id : FieldId}
    {pos : List Nat} : index.position? id = some pos ↔
      ∃ f, Field.at? root.fields pos = some f ∧ f.id = id := by
  constructor
  · intro hpos
    rw [position?_of_build h, Option.map_eq_some_iff] at hpos
    obtain ⟨p, hfind, rfl⟩ := hpos
    have hid : p.id = id := by simpa using List.find?_some hfind
    exact ⟨p.field, Field.at?_position (List.mem_of_find?_eq_some hfind), hid⟩
  · rintro ⟨f, hf, rfl⟩
    obtain ⟨p, hp, rfl, rfl⟩ := Field.at?_eq_some_iff.1 hf
    exact position?_id_of_build h hp

theorem mem_positions_iff_of_build (h : build root = .ok index) (pos : List Nat) :
    pos ∈ index.entries.map Prod.snd ↔ (Field.at? root.fields pos).isSome = true := by
  rw [positions_of_build h, Option.isSome_iff_exists, List.mem_map]
  simp only [Field.at?_eq_some_iff]
  constructor
  · rintro ⟨p, hp, hpos⟩
    exact ⟨p.field, p, hp, hpos, rfl⟩
  · rintro ⟨f, p, hp, hpos, -⟩
    exact ⟨p, hp, hpos⟩

theorem mem_ids_iff_of_build (h : build root = .ok index) {id : FieldId} :
    id ∈ index.ids ↔ ∃ p ∈ root.places, p.id = id := by
  rw [ids_of_build h, List.mem_map]

/-- In a struct a number is looked up to the field of the place with the number. -/
theorem find?_eq_some_iff_of_build (h : build root = .ok index) (hroot : root.isStruct = true)
    {id : FieldId} {f : Field} :
    index.find? root id = some f ↔ ∃ p ∈ root.places, p.field = f ∧ p.id = id := by
  cases root with
  | struct fields =>
    rw [find?, Option.bind_eq_some_iff]
    simp only [position?_eq_some_iff_of_build h]
    constructor
    · rintro ⟨pos, ⟨f', hf', rfl⟩, hf⟩
      obtain rfl : f' = f := Option.some.inj (hf'.symm.trans hf)
      obtain ⟨p, hp, -, rfl⟩ := Field.at?_eq_some_iff.1 hf'
      exact ⟨p, hp, rfl, rfl⟩
    · rintro ⟨p, hp, rfl, rfl⟩
      exact ⟨p.position, ⟨p.field, Field.at?_position hp, rfl⟩, Field.at?_position hp⟩
  | _ => cases hroot

theorem highest?_eq_some_iff_of_build (h : build root = .ok index) {id : FieldId} :
    index.highest? = some id ↔
      (∃ p ∈ root.places, p.id = id) ∧ ∀ p ∈ root.places, p.id ≤ id := by
  rw [highest?, List.max?_eq_some_iff, mem_ids_iff_of_build h, ids_of_build h, List.forall_mem_map]

/-- **An index that is built holds every field once.** -/
theorem records_of_build (h : build root = .ok index) : index.Records root where
  position?_eq_some_iff _ _ := position?_eq_some_iff_of_build h
  nodup_positions := by
    rw [positions_of_build h]
    exact root.nodup_map_position
  mem_positions_iff := mem_positions_iff_of_build h
  size_eq := by rw [size, ← List.length_map Prod.snd, positions_of_build h, List.length_map]
  contains_iff _ := by rw [contains_eq_true_iff, mem_ids_iff_of_build h]
  position?_id _ := position?_id_of_build h
  depth_eq _ := Place.depth_eq_length_way
  find?_eq_some_iff hroot _ _ := find?_eq_some_iff_of_build h hroot
  highest?_eq_some_iff _ := highest?_eq_some_iff_of_build h
  highest?_eq_none_iff := by
    rw [highest?, List.max?_eq_none_iff, ids_of_build h, List.map_eq_nil_iff]

/-- **The index of numbers is a one-to-one correspondence between the numbers and the positions of
all fields, or else tells the first number that is there twice.** -/
theorem build_outcome (root : ColumnType) :
    ((∃ index, build root = .ok index) ↔ (root.places.map Place.id).Nodup) ∧
    (∀ e, build root = .error e ↔ ∃ before p after, root.places = before ++ p :: after ∧
      (before.map Place.id).Nodup ∧ p.id ∈ before.map Place.id ∧ e = .duplicateId p.id) ∧
    ∀ index, build root = .ok index → index.Records root := by
  refine ⟨?_, fun e => build_eq_error_iff, fun index => records_of_build⟩
  simp only [build_eq_ok_iff, exists_and_left, exists_eq, and_true]

/-- A column, and a map whose values have the number of that column. -/
def clashingMap : ColumnType :=
  .struct [.required 1 "id" (.primitive .long),
    .nullable 2 "tags" (.map 3 (.primitive .string) 1 (.primitive .string) true)]

/-- A leaf in the structs of a list in the structs of a map is found five levels down.  The values
of a map that have the number of a column in front of it are reported. -/
theorem build_outcome_mapOfStructs :
    (∃ index, build (.struct Samples.mapOfStructs) = .ok index ∧
      index.Records (.struct Samples.mapOfStructs) ∧ index.position? 2 = some [0, 1, 1, 0, 1]) ∧
    build clashingMap = .error (.duplicateId 1) := by
  have hbuild : build (.struct Samples.mapOfStructs) = .ok _ := rfl
  obtain ⟨-, -, hrecords⟩ := build_outcome (.struct Samples.mapOfStructs)
  obtain ⟨-, hfails, -⟩ := build_outcome clashingMap
  refine ⟨⟨_, hbuild, hrecords _ hbuild, rfl⟩, (hfails _).2 ?_⟩
  exact ⟨clashingMap.places.take 3, _, [], rfl, by decide, by decide, rfl⟩

end IdIndex
end TableSchema
