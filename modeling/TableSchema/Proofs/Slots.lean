import TableSchema.Place

/-!
# Types slot by slot

Every type is a row of slots: none for a leaf, one for a list, two for a map, any number for a
struct.  Most facts about the places of a type pass from the types in its slots to the type and do
not depend on its kind, so `ColumnType.induction_hops` is the induction used for them, with
`ColumnType.mem_places` for the places: the slots themselves and what lies in their types.

`ColumnType.placesUp` lists the same places from the bottom up, which is the order in which a walk
is done with them.
-/

namespace TableSchema

/-! ## Slots and their types -/

/-- **Induction slot by slot**: a property that a type has as soon as the types in all its slots
have it holds of every type. -/
@[elab_as_elim]
theorem ColumnType.induction_hops {motive : ColumnType → Prop}
    (node : ∀ t, (∀ h ∈ t.hops, motive h.field.type) → motive t) (t : ColumnType) : motive t := by
  induction t using ColumnType.induction with
  | primitive p => exact node _ nofun
  | struct fs ih => exact node _ (by simpa [hops] using ih)
  | list id t o ih => exact node _ (by simpa [hops, Field.element] using ih)
  | map i k j v o ihk ihv =>
    exact node _ (by simpa [hops, Field.mapKey, Field.mapValue] using ⟨ihk, ihv⟩)

/-- Whether a slot is one of the two slots of a map. -/
def Role.isMapSide : Role → Bool
  | mapKey | mapValue => true
  | structField | listElement => false

/-- The slots of a map are its two sides, and no other type has slots of that kind. -/
theorem ColumnType.isMapSide_of_mem_hops {t : ColumnType} {h : Hop} (hh : h ∈ t.hops) :
    h.role.isMapSide = t.isMap := by
  cases t <;> simp only [hops, List.not_mem_nil, List.mem_map, List.mem_cons, or_false] at hh
  · obtain ⟨f, -, rfl⟩ := hh
    rfl
  · rw [hh]
    rfl
  · rcases hh with rfl | rfl <;> rfl

/-! ## Places slot by slot -/

theorem Hop.mem_places {h : Hop} {i : Nat} {inside : List Place} {p : Place} :
    p ∈ h.places i inside ↔ p = .child i h ∨ ∃ q ∈ inside, q.below i h = p := by
  simp [Hop.places]

/-- **A place of a type is one of its slots or lies in the type of one.** -/
theorem ColumnType.mem_places {t : ColumnType} {p : Place} :
    p ∈ t.places ↔ ∃ i h, t.hops[i]? = some h ∧
      (p = .child i h ∨ ∃ q ∈ h.field.type.places, q.below i h = p) := by
  rw [places_eq_flatMap]
  simp only [List.mem_flatMap, List.mem_zipIdx_iff_getElem?, Hop.mem_places, Prod.exists]
  exact exists_comm

theorem ColumnType.child_mem_places {t : ColumnType} {i : Nat} {h : Hop}
    (hi : t.hops[i]? = some h) : Place.child i h ∈ t.places :=
  mem_places.2 ⟨i, h, hi, .inl rfl⟩

theorem ColumnType.below_mem_places {t : ColumnType} {i : Nat} {h : Hop}
    (hi : t.hops[i]? = some h) {q : Place} (hq : q ∈ h.field.type.places) :
    q.below i h ∈ t.places :=
  mem_places.2 ⟨i, h, hi, .inr ⟨q, hq, rfl⟩⟩

/-- What holds of some place in or below slot number `i`, and only there, holds of the slot or of
some place in its type. -/
theorem ColumnType.exists_place_iff {t : ColumnType} {i : Nat} {h : Hop} (hi : t.hops[i]? = some h)
    {P : Place → Prop} (hP : ∀ p, P p → p.position = [] ∨ ∃ pos, p.position = i :: pos) :
    (∃ p ∈ t.places, P p) ↔ P (.child i h) ∨ ∃ q ∈ h.field.type.places, P (q.below i h) := by
  constructor
  · rintro ⟨p, hp, hPp⟩
    obtain ⟨j, h', hj, hp⟩ := mem_places.1 hp
    -- A position tells which slot it goes through.
    have hij : j = i := by
      rcases hp with rfl | ⟨q, -, rfl⟩ <;> simpa using hP _ hPp
    subst hij
    obtain rfl : h = h' := Option.some.inj (hi.symm.trans hj)
    rcases hp with rfl | ⟨q, hq, rfl⟩
    · exact .inl hPp
    · exact .inr ⟨q, hq, hPp⟩
  · rintro (hPp | ⟨q, hq, hPp⟩)
    · exact ⟨_, child_mem_places hi, hPp⟩
    · exact ⟨_, below_mem_places hi hq, hPp⟩

namespace Place

/-- The type that a place is a slot of, in the type `root` that the place is a place of. -/
def parent (p : Place) (root : ColumnType) : ColumnType :=
  (p.above.getLast?.map fun h => h.field.type).getD root

@[simp] theorem parent_child (i : Nat) (h : Hop) (t : ColumnType) : (child i h).parent t = t := rfl

/-- From one level further up the parent is the same, be it the type that was the top before. -/
@[simp] theorem parent_below (i : Nat) (h : Hop) (p : Place) (t : ColumnType) :
    (p.below i h).parent t = p.parent h.field.type := by
  unfold parent below
  rw [List.getLast?_cons]
  cases p.above.getLast? <;> rfl

@[simp] theorem hop_child (i : Nat) (h : Hop) : (child i h).hop = h := rfl

@[simp] theorem hop_below (i : Nat) (h : Hop) (p : Place) : (p.below i h).hop = p.hop := rfl

theorem way_ne_nil (p : Place) : p.way ≠ [] := List.concat_ne_nil _ _

end Place

theorem ColumnType.position_ne_nil {t : ColumnType} {p : Place} (hp : p ∈ t.places) :
    p.position ≠ [] := by
  obtain ⟨i, h, -, rfl | ⟨q, -, rfl⟩⟩ := mem_places.1 hp <;> simp

/-- **The places below a place** are those of the type of its field: they are slots of the same
types, and their positions go on from that of the place. -/
theorem ColumnType.exists_place_append {t : ColumnType} {p r : Place} (hp : p ∈ t.places)
    (hr : r ∈ p.field.type.places) :
    ∃ q ∈ t.places, q.position = p.position ++ r.position ∧ q.hop = r.hop ∧
      q.parent t = r.parent p.field.type := by
  induction t using induction_hops generalizing p with
  | node t ih =>
    obtain ⟨i, h, hi, rfl | ⟨p', hp', rfl⟩⟩ := mem_places.1 hp
    · exact ⟨r.below i h, below_mem_places hi hr, by simp⟩
    · obtain ⟨q, hq, hpos, hhop, hparent⟩ := ih h (List.mem_of_getElem? hi) hp' hr
      exact ⟨q.below i h, below_mem_places hi hq, by simp [hpos, hhop, hparent]⟩

/-- A place is a slot of its parent. -/
theorem ColumnType.hop_mem_hops_parent {t : ColumnType} {p : Place} (hp : p ∈ t.places) :
    p.hop ∈ (p.parent t).hops := by
  induction t using induction_hops generalizing p with
  | node t ih =>
    obtain ⟨i, h, hi, rfl | ⟨q, hq, rfl⟩⟩ := mem_places.1 hp
    · exact List.mem_of_getElem? hi
    · rw [Place.parent_below, Place.hop_below]
      exact ih h (List.mem_of_getElem? hi) hq

/-- The slots next to a place are places too. -/
theorem ColumnType.exists_place_of_mem_hops_parent {t : ColumnType} {p : Place} (hp : p ∈ t.places)
    {h : Hop} (hh : h ∈ (p.parent t).hops) :
    ∃ q ∈ t.places, q.hop = h ∧ q.parent t = p.parent t := by
  induction t using induction_hops generalizing p with
  | node t ih =>
    obtain ⟨i, h', hi, rfl | ⟨p', hp', rfl⟩⟩ := mem_places.1 hp
    · obtain ⟨j, hj⟩ := List.getElem?_of_mem hh
      exact ⟨_, child_mem_places hj, rfl, rfl⟩
    · rw [Place.parent_below] at hh ⊢
      obtain ⟨q, hq, hhop, hparent⟩ := ih h' (List.mem_of_getElem? hi) hp' hh
      exact ⟨q.below i h', below_mem_places hi hq, hhop, by rw [Place.parent_below, hparent]⟩

/-- Every slot on the way to a place is that of a place. -/
theorem ColumnType.exists_place_of_mem_way {t : ColumnType} {p : Place} (hp : p ∈ t.places)
    {h : Hop} (hh : h ∈ p.way) : ∃ q ∈ t.places, q.hop = h := by
  induction t using induction_hops generalizing p with
  | node t ih =>
    obtain ⟨i, g, hi, rfl | ⟨q, hq, rfl⟩⟩ := mem_places.1 hp
    · rw [Place.way_child, List.mem_singleton] at hh
      exact ⟨.child i g, hp, hh.symm⟩
    · rcases List.mem_cons.1 hh with rfl | hh
      · exact ⟨.child i h, child_mem_places hi, rfl⟩
      · obtain ⟨r, hr, hhop⟩ := ih g (List.mem_of_getElem? hi) hq hh
        exact ⟨r.below i g, below_mem_places hi hr, hhop⟩

/-! ## From the bottom up -/

/-- The places in the type of a slot and then the slot, given the places in that type. -/
def Hop.placesUp (h : Hop) (index : Nat) (inside : List Place) : List Place :=
  inside.map (Place.below index h) ++ [.child index h]

mutual

/-- All places of a type, a field after the fields below it and these in the order of their
slots. -/
def ColumnType.placesUp : ColumnType → List Place
  | .primitive _ => []
  | .struct fields => Field.placesUpFrom 0 fields
  | .list id type optional => Hop.placesUp ⟨.listElement, .element id type optional⟩ 0 type.placesUp
  | .map keyId key valueId value optional =>
    Hop.placesUp ⟨.mapKey, .mapKey keyId key⟩ 0 key.placesUp ++
      Hop.placesUp ⟨.mapValue, .mapValue valueId value optional⟩ 1 value.placesUp

/-- The places below and in the fields of a struct, the first of which is child number `index`. -/
def Field.placesUpFrom (index : Nat) : List Field → List Place
  | [] => []
  | ⟨id, name, type, optional, doc⟩ :: fields =>
    Hop.placesUp ⟨.structField, ⟨id, name, type, optional, doc⟩⟩ index type.placesUp ++
      Field.placesUpFrom (index + 1) fields

end

theorem Field.placesUpFrom_eq_flatMap (index : Nat) (fields : List Field) :
    placesUpFrom index fields =
      (fields.zipIdx index).flatMap fun (f, i) =>
        Hop.placesUp ⟨.structField, f⟩ i f.type.placesUp := by
  induction fields generalizing index with
  | nil => rfl
  | cons f fields ih =>
    cases f
    simp [placesUpFrom, ih]

/-- **From the bottom up, slot by slot**: the places in the type of each slot, then the slot. -/
theorem ColumnType.placesUp_eq_flatMap (t : ColumnType) :
    t.placesUp = t.hops.zipIdx.flatMap fun (h, i) => h.placesUp i h.field.type.placesUp := by
  cases t with
  | struct fields =>
    simp [placesUp, hops, Field.placesUpFrom_eq_flatMap, List.zipIdx_map, List.flatMap_map]
  | _ => simp [placesUp, hops, Field.element, Field.mapKey, Field.mapValue]

/-- **Both orders list the same places.** -/
theorem ColumnType.mem_placesUp {t : ColumnType} {p : Place} : p ∈ t.placesUp ↔ p ∈ t.places := by
  induction t using induction_hops generalizing p with
  | node t ih =>
    rw [placesUp_eq_flatMap, places_eq_flatMap]
    simp only [List.mem_flatMap, Prod.exists]
    refine exists_congr fun h => exists_congr fun i => and_congr_right fun hi => ?_
    have hh : h ∈ t.hops := List.mem_of_getElem? (List.mem_zipIdx_iff_getElem?.1 hi)
    simp only [Hop.placesUp, Hop.places, List.mem_append, List.mem_map, List.mem_cons,
      List.not_mem_nil, or_false, ih h hh]
    exact or_comm

end TableSchema
