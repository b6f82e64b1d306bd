import Mathlib.Data.List.Basic
import TableSchema.Cut
import TableSchema.Proofs.Slots

/-!
# Restricting a type to some of its fields

`ColumnType.keepOnly` is the plain meaning of "the type with only these fields": it drops the
fields of structs whose positions are not kept and leaves all else as it is, order included.

Not every set of positions can be had that way, since the slots of lists and maps cannot be
dropped and a field cannot stay where the struct above it went.  `ColumnType.Keepable` says that a
set can be had.  The places of the restricted type are then exactly the kept places of the type
(`Keepable.map_outline_places`): the same slots on the way to each and the same field, but for what
was dropped below it.
-/

namespace TableSchema

/-! ## The restricted type -/

mutual

/-- **The type with only the fields at the positions that are kept.**  The slots of lists and maps
stay in any case. -/
def ColumnType.keepOnly (keep : List Nat → Bool) : ColumnType → ColumnType
  | .primitive p => .primitive p
  | .struct fields => .struct (Field.keepOnlyFrom keep 0 fields)
  | .list id type optional => .list id (type.keepOnly fun pos => keep (0 :: pos)) optional
  | .map keyId key valueId value optional =>
    .map keyId (key.keepOnly fun pos => keep (0 :: pos)) valueId
      (value.keepOnly fun pos => keep (1 :: pos)) optional

/-- The kept ones of the fields of a struct, the first of which is child number `index`, with what
is kept of their types. -/
def Field.keepOnlyFrom (keep : List Nat → Bool) (index : Nat) : List Field → List Field
  | [] => []
  | ⟨id, name, type, optional, doc⟩ :: fields =>
    if keep [index] then
      ⟨id, name, type.keepOnly fun pos => keep (index :: pos), optional, doc⟩ ::
        Field.keepOnlyFrom keep (index + 1) fields
    else Field.keepOnlyFrom keep (index + 1) fields

end

/-- Slot number `index` with what is kept of its type. -/
def Hop.keepOnly (h : Hop) (keep : List Nat → Bool) (index : Nat) : Hop :=
  ⟨h.role, h.field.withType (h.field.type.keepOnly fun pos => keep (index :: pos))⟩

theorem Field.keepOnlyFrom_eq_flatMap (keep : List Nat → Bool) (index : Nat) (fields : List Field) :
    keepOnlyFrom keep index fields = (fields.zipIdx index).flatMap fun (f, i) =>
      if keep [i] then [f.withType (f.type.keepOnly fun pos => keep (i :: pos))] else [] := by
  induction fields generalizing index with
  | nil => rfl
  | cons f fields ih =>
    cases f
    rw [List.zipIdx_cons, List.flatMap_cons, ← ih, keepOnlyFrom]
    by_cases hk : keep [index] = true <;> simp [hk, withType]

/-- **The slots that stay**: those of a struct that are kept, and those of a list or a map. -/
theorem ColumnType.hops_keepOnly (keep : List Nat → Bool) (t : ColumnType) :
    (t.keepOnly keep).hops = t.hops.zipIdx.flatMap fun (h, i) =>
      if t.isStruct = true → keep [i] = true then [h.keepOnly keep i] else [] := by
  cases t with
  | primitive p => rfl
  | struct fields =>
    simp only [keepOnly, hops, Field.keepOnlyFrom_eq_flatMap, List.map_flatMap, List.zipIdx_map,
      List.flatMap_map]
    refine List.flatMap_congr ?_
    rintro ⟨f, i⟩ -
    by_cases hk : keep [i] = true
    · simp [hk, Hop.keepOnly]
    · simp [hk, isStruct, kind]
  | list id type optional => rfl
  | map keyId key valueId value optional => rfl

/-- The leaf that a type is, if it is one. -/
def ColumnType.leaf? : ColumnType → Option Primitive
  | primitive p => some p
  | _ => none

@[simp] theorem ColumnType.kind_keepOnly (keep : List Nat → Bool) (t : ColumnType) :
    (t.keepOnly keep).kind = t.kind := by
  cases t <;> rfl

@[simp] theorem ColumnType.leaf?_keepOnly (keep : List Nat → Bool) (t : ColumnType) :
    (t.keepOnly keep).leaf? = t.leaf? := by
  cases t <;> rfl

/-- **A type is given by its kind and its slots**, or by its leaf. -/
theorem ColumnType.ext_hops {t u : ColumnType} (hkind : t.kind = u.kind) (hleaf : t.leaf? = u.leaf?)
    (hhops : t.hops = u.hops) : t = u := by
  cases t <;> cases u <;> cases hkind
  · simpa [leaf?] using hleaf
  · rename_i fs gs
    have hinj : Function.Injective (Hop.mk .structField) := fun f g h => (Hop.mk.inj h).2
    rw [hinj.list_map hhops]
  · simp only [hops, List.cons.injEq, Hop.mk.injEq, Field.element, Field.mk.injEq] at hhops
    simp [hhops]
  · simp only [hops, List.cons.injEq, Hop.mk.injEq, Field.mapKey, Field.mapValue,
      Field.mk.injEq] at hhops
    simp [hhops]

/-- **What is left of a type depends only on which of its places are kept.** -/
theorem ColumnType.keepOnly_congr_of_places {keep keep' : List Nat → Bool} {t : ColumnType}
    (h : ∀ p ∈ t.places, keep p.position = keep' p.position) :
    t.keepOnly keep = t.keepOnly keep' := by
  induction t using induction_hops generalizing keep keep' with
  | node t ih =>
    refine ext_hops (by simp) (by simp) ?_
    rw [hops_keepOnly, hops_keepOnly]
    refine List.flatMap_congr fun (hop, i) hi => ?_
    replace hi : t.hops[i]? = some hop := List.mem_zipIdx_iff_getElem?.1 hi
    have hkeep : keep [i] = keep' [i] := h _ (child_mem_places hi)
    have htype : (hop.field.type.keepOnly fun pos => keep (i :: pos)) =
        hop.field.type.keepOnly fun pos => keep' (i :: pos) :=
      ih hop (List.mem_of_getElem? hi) fun q hq => h (q.below i hop) (below_mem_places hi hq)
    simp only [hkeep, Hop.keepOnly, htype]

/-- Only the positions of fields matter, which are never empty. -/
theorem ColumnType.keepOnly_congr {keep keep' : List Nat → Bool} {t : ColumnType}
    (h : ∀ pos, pos ≠ [] → keep pos = keep' pos) : t.keepOnly keep = t.keepOnly keep' :=
  keepOnly_congr_of_places fun _ hp => h _ (position_ne_nil hp)

/-- A type of which all slots are kept, with their types as they were, is as it was. -/
theorem ColumnType.keepOnly_eq_self_of_slots {keep : List Nat → Bool} {t : ColumnType}
    (h : ∀ i hop, t.hops[i]? = some hop → keep [i] = true ∧
      hop.field.type.keepOnly (fun pos => keep (i :: pos)) = hop.field.type) :
    t.keepOnly keep = t := by
  refine ext_hops (by simp) (by simp) ?_
  rw [hops_keepOnly]
  have hslots : ∀ x ∈ t.hops.zipIdx,
      (if t.isStruct = true → keep [x.2] = true then [x.1.keepOnly keep x.2] else []) = [x.1] := by
    intro (hop, i) hx
    obtain ⟨hkeep, htype⟩ := h i hop (List.mem_zipIdx_iff_getElem?.1 hx)
    simp [hkeep, Hop.keepOnly, htype]
  rw [List.flatMap_congr hslots]
  simp [← List.map_eq_flatMap]

/-- Making one thing each of some is making them of those that are left. -/
theorem flatMap_ite_singleton {α β : Type} (p : α → Prop) [DecidablePred p] (g : α → β)
    (as : List α) : (as.flatMap fun a => if p a then [g a] else []) = (as.filter p).map g := by
  induction as with
  | nil => rfl
  | cons a as ih => by_cases ha : p a <;> simp [ha, ih]

/-- **A type that stays as it was has all its slots kept**, with their types as they were. -/
theorem ColumnType.slots_of_keepOnly_eq_self {keep : List Nat → Bool} {t : ColumnType}
    (h : t.keepOnly keep = t) {i : Nat} {hop : Hop} (hi : t.hops[i]? = some hop) :
    (t.isStruct = true → keep [i] = true) ∧
      hop.field.type.keepOnly (fun pos => keep (i :: pos)) = hop.field.type := by
  have hslots := t.hops_keepOnly keep
  rw [h, flatMap_ite_singleton (fun x : Hop × Nat => t.isStruct = true → keep [x.2] = true)
    fun x => x.1.keepOnly keep x.2] at hslots
  -- There are as many slots as before, so none was dropped.
  have hall : ∀ x ∈ t.hops.zipIdx, decide (t.isStruct = true → keep [x.2] = true) = true := by
    have hlen := congrArg List.length hslots
    rwa [List.length_map, ← List.length_zipIdx, eq_comm, List.length_filter_eq_length_iff] at hlen
  have hhop : hop.keepOnly keep i = hop := by
    rw [List.filter_eq_self.2 hall] at hslots
    have hget := congrArg (fun hops : List Hop => hops[i]?) hslots
    simpa [hi] using hget.symm
  have hfield : hop.field.withType _ = hop.field := (Hop.mk.inj hhop).2
  exact ⟨of_decide_eq_true (hall (hop, i) (List.mem_zipIdx_iff_getElem?.2 hi)),
    congrArg Field.type hfield⟩

/-- A type of which every field is kept is as it was. -/
theorem ColumnType.keepOnly_eq_self {keep : List Nat → Bool} {t : ColumnType}
    (h : ∀ p ∈ t.places, keep p.position = true) : t.keepOnly keep = t := by
  induction t using induction_hops generalizing keep with
  | node t ih =>
    refine keepOnly_eq_self_of_slots fun i hop hi => ⟨h _ (child_mem_places hi), ?_⟩
    exact ih hop (List.mem_of_getElem? hi) fun q hq => h _ (below_mem_places hi hq)

/-! ## What a slot looks like -/

/-- What is seen of a slot without looking into its type, which is all but the slots below it. -/
structure Label where
  role : Role
  id : FieldId
  name : String
  optional : Bool
  doc : Option String
  /-- The kind of the field's type. -/
  kind : Kind
  /-- The field's type itself if it is a leaf. -/
  leaf : Option Primitive
  deriving DecidableEq

def Hop.label (h : Hop) : Label :=
  ⟨h.role, h.field.id, h.field.name, h.field.optional, h.field.doc, h.field.type.kind,
    h.field.type.leaf?⟩

namespace Place

/-- The labels on the way to a field, its own included.  Unlike its position they do not depend on
its neighbours. -/
def outline (p : Place) : List Label := p.way.map Hop.label

@[simp] theorem outline_child (i : Nat) (h : Hop) : (child i h).outline = [h.label] := rfl

@[simp] theorem outline_below (i : Nat) (h : Hop) (p : Place) :
    (p.below i h).outline = h.label :: p.outline := rfl

/-- The field with what is kept of its type, the positions being counted from the top. -/
def remnant (p : Place) (keep : List Nat → Bool) : Field :=
  p.field.withType (p.field.type.keepOnly fun pos => keep (p.position ++ pos))

/-- A field below which everything is kept is as it was. -/
theorem remnant_eq_field {p : Place} {keep : List Nat → Bool}
    (h : ∀ pos, keep (p.position ++ pos) = true) : p.remnant keep = p.field := by
  rw [remnant, ColumnType.keepOnly_eq_self fun r _ => h r.position, Field.withType_type]

end Place

@[simp] theorem Hop.label_keepOnly (h : Hop) (keep : List Nat → Bool) (i : Nat) :
    (h.keepOnly keep i).label = h.label := by
  simp [Hop.label, Hop.keepOnly, Field.withType]

/-! ## Positions that can be kept -/

/-- **A set of positions that can be kept of a type**: with a list or a map its slots are kept, and
below a slot that is not kept nothing is. -/
inductive ColumnType.Keepable : (List Nat → Bool) → ColumnType → Prop
  | node {keep : List Nat → Bool} {t : ColumnType}
      (slots : t.isStruct = false → ∀ i h, t.hops[i]? = some h → keep [i] = true)
      (kept : ∀ i h, t.hops[i]? = some h → keep [i] = true →
        Keepable (fun pos => keep (i :: pos)) h.field.type)
      (dropped : ∀ i h, t.hops[i]? = some h → keep [i] = false →
        ∀ p ∈ h.field.type.places, keep (i :: p.position) = false) :
      Keepable keep t

namespace ColumnType

theorem Keepable.congr {keep keep' : List Nat → Bool} {t : ColumnType} (hk : t.Keepable keep)
    (h : ∀ pos, pos ≠ [] → keep pos = keep' pos) : t.Keepable keep' := by
  induction hk generalizing keep' with
  | @node keep t slots _ dropped ih =>
    refine .node (fun hs i hop hi => ?_) (fun i hop hi hkeep => ?_) fun i hop hi hkeep q hq => ?_
    · rw [← h [i] (List.cons_ne_nil i [])]
      exact slots hs i hop hi
    · rw [← h [i] (List.cons_ne_nil i [])] at hkeep
      exact ih i hop hi hkeep fun pos _ => h (i :: pos) (List.cons_ne_nil i pos)
    · rw [← h [i] (List.cons_ne_nil i [])] at hkeep
      rw [← h _ (List.cons_ne_nil i q.position)]
      exact dropped i hop hi hkeep q hq

/-- The slots of what is no struct are kept. -/
theorem Keepable.slot {keep : List Nat → Bool} {t : ColumnType} (hk : t.Keepable keep)
    (hs : t.isStruct = false) {i : Nat} {h : Hop} (hi : t.hops[i]? = some h) : keep [i] = true := by
  cases hk with
  | node slots _ _ => exact slots hs i h hi

/-- All that is in and below the slots can be kept. -/
theorem Keepable.all {keep : List Nat → Bool} {t : ColumnType}
    (h : ∀ i hop, t.hops[i]? = some hop → ∀ pos, keep (i :: pos) = true) : t.Keepable keep := by
  induction t using induction_hops generalizing keep with
  | node t ih =>
    refine .node (fun _ i hop hi => h i hop hi []) (fun i hop hi _ => ?_) fun i hop hi hk => ?_
    · exact ih hop (List.mem_of_getElem? hi) fun j _ _ pos => h i hop hi (j :: pos)
    · rw [h i hop hi []] at hk
      cases hk

/-- Of a struct, and of a type without slots, nothing need be kept. -/
theorem Keepable.none {keep : List Nat → Bool} {t : ColumnType}
    (ht : t.isStruct = true ∨ t.hops = []) (h : ∀ p ∈ t.places, keep p.position = false) :
    t.Keepable keep := by
  refine .node (fun hs i hop hi => ?_) (fun i hop hi hk => ?_) fun i hop hi _ q hq => ?_
  · rcases ht with ht | ht
    · rw [ht] at hs
      cases hs
    · rw [ht] at hi
      cases hi
  · have hkeep : keep [i] = false := h _ (child_mem_places hi)
    rw [hkeep] at hk
    cases hk
  · exact h _ (below_mem_places hi hq)

/-- A struct of which no field is kept is empty. -/
theorem keepOnly_struct_of_none {keep : List Nat → Bool} {fields : List Field}
    (h : ∀ i hop, (struct fields).hops[i]? = some hop → keep [i] = false) :
    (struct fields).keepOnly keep = struct [] := by
  refine ext_hops (kind_keepOnly keep _) (leaf?_keepOnly keep _) ?_
  rw [hops_keepOnly]
  refine List.flatMap_eq_nil_iff.2 fun (hop, i) hi => ?_
  have hkeep : keep [i] = false := h i hop (List.mem_zipIdx_iff_getElem?.1 hi)
  simp [hkeep, isStruct, kind]

/-- The places of a type with their outlines and fields, slot by slot.  Which child a slot is does
not show. -/
theorem map_outline_places (t : ColumnType) :
    t.places.map (fun q => (q.outline, q.field)) = t.hops.flatMap fun h =>
      ([h.label], h.field) ::
        h.field.type.places.map fun q => (h.label :: q.outline, q.field) := by
  rw [places_eq_flatMap, List.map_flatMap]
  conv_rhs => rw [← List.zipIdx_map_fst 0 t.hops, List.flatMap_map]
  simp [Hop.places, Function.comp_def]

/-- **The places of a restricted type are the kept places of the type**, in the same order, with the
same slots on the way and with what is kept of their types. -/
theorem Keepable.map_outline_places {keep : List Nat → Bool} {t : ColumnType}
    (h : t.Keepable keep) :
    (t.keepOnly keep).places.map (fun q => (q.outline, q.field)) =
      (t.places.filter fun p => keep p.position).map fun p => (p.outline, p.remnant keep) := by
  induction h with
  | @node keep t slots _ dropped ih =>
    rw [ColumnType.map_outline_places, hops_keepOnly, List.flatMap_assoc, places_eq_flatMap,
      List.filter_flatMap, List.map_flatMap]
    refine List.flatMap_congr fun (hop, i) hi => ?_
    replace hi : t.hops[i]? = some hop := List.mem_zipIdx_iff_getElem?.1 hi
    cases hk : keep [i] with
    | false =>
      -- Only a struct drops a slot, and then nothing below the slot is kept either.
      have hstruct : t.isStruct = true := by
        by_contra hs
        rw [slots (by simpa using hs) i hop hi] at hk
        cases hk
      simpa [hk, hstruct, Hop.places, List.filter_map, Function.comp_def] using
        dropped i hop hi hk
    | true =>
      have hinside := congrArg (List.map fun x => (hop.label :: x.1, x.2)) (ih i hop hi hk)
      simp only [List.map_map, Function.comp_def] at hinside
      simp only [hk, Hop.places, List.filter_cons, List.filter_map, Function.comp_def,
        Place.position_child, Place.position_below, Place.outline_child, Place.outline_below,
        List.map_cons, List.map_map, implies_true, if_true, List.flatMap_cons, List.flatMap_nil,
        List.append_nil, Hop.label_keepOnly]
      exact congrArg (_ :: ·) hinside

end ColumnType

/-! ## Cuts and positions -/

/-- **A cut leaves the kept positions** of a type: the type under the cut is the one restricted to
them, and they can be kept. -/
structure Cut.Leaves (c : Cut) (t : ColumnType) (keep : List Nat → Bool) : Prop where
  restrict_eq : t.restrict c = t.keepOnly keep
  keepable : t.Keepable keep

/-- The same for a slot, which may also be dropped. -/
structure Hop.Leaves (h : Hop) (keep : List Nat → Bool) (i : Nat) (slot : Option Cut) : Prop where
  isSome_eq : slot.isSome = keep [i]
  leaves : ∀ c, slot = some c → c.Leaves h.field.type fun pos => keep (i :: pos)

/-- **Cuts for all slots of a type**, one each, that leave what is kept in them. -/
structure Cut.AllLeave (slots : List (Option Cut)) (t : ColumnType) (keep : List Nat → Bool) :
    Prop where
  length_eq : slots.length = t.hops.length
  slot : ∀ (i : Nat) (h : Hop), t.hops[i]? = some h →
    ∃ slot, slots[i]? = some slot ∧ h.Leaves keep i slot

/-- Every cut is that of a slot. -/
theorem Cut.AllLeave.exists_hop {slots : List (Option Cut)} {t : ColumnType}
    {keep : List Nat → Bool} (hslots : AllLeave slots t keep) {i : Nat} {slot : Option Cut}
    (hi : slots[i]? = some slot) : ∃ h, t.hops[i]? = some h ∧ h.Leaves keep i slot := by
  have hlt : i < t.hops.length := hslots.length_eq ▸ (List.getElem?_eq_some_iff.1 hi).1
  have hhop := List.getElem?_eq_getElem hlt
  obtain ⟨slot', hi', hleaves⟩ := hslots.slot i _ hhop
  obtain rfl : slot = slot' := Option.some.inj (hi.symm.trans hi')
  exact ⟨_, hhop, hleaves⟩

theorem Cut.whole_leaves {t : ColumnType} {keep : List Nat → Bool}
    (h : ∀ i hop, t.hops[i]? = some hop → ∀ pos, keep (i :: pos) = true) : whole.Leaves t keep := by
  refine ⟨?_, .all h⟩
  rw [ColumnType.restrict_whole, ColumnType.keepOnly_eq_self]
  intro p hp
  obtain ⟨i, hop, hi, rfl | ⟨q, -, rfl⟩⟩ := ColumnType.mem_places.1 hp
  · exact h i hop hi []
  · exact h i hop hi q.position

theorem Cut.Leaves.congr {c : Cut} {t : ColumnType} {keep keep' : List Nat → Bool}
    (hc : c.Leaves t keep) (h : ∀ pos, pos ≠ [] → keep pos = keep' pos) : c.Leaves t keep' :=
  ⟨by rw [hc.restrict_eq, ColumnType.keepOnly_congr h], hc.keepable.congr h⟩

/-- Of a leaf nothing can be dropped. -/
theorem Cut.leaves_of_isPrimitive {t : ColumnType} (ht : t.isPrimitive = true) (c : Cut)
    (keep : List Nat → Bool) : c.Leaves t keep := by
  cases t with
  | primitive p => exact ⟨by cases c <;> rfl, .none (.inr rfl) nofun⟩
  | _ => cases ht

/-- An empty struct is left where nothing of a struct is kept. -/
theorem Cut.bare_leaves {t : ColumnType} (ht : t.isStruct = true) {keep : List Nat → Bool}
    (h : ∀ p ∈ t.places, keep p.position = false) : bare.Leaves t keep := by
  cases t with
  | struct fields =>
    refine ⟨?_, .none (.inl rfl) h⟩
    rw [ColumnType.restrict_bare,
      ColumnType.keepOnly_struct_of_none fun i hop hi => h _ (ColumnType.child_mem_places hi)]
  | _ => cases ht

/-- The fields of a struct under the cuts of its slots are the kept ones. -/
theorem Field.restrictEach_eq_keepOnlyFrom {keep : List Nat → Bool} {index : Nat}
    {fields : List Field} {slots : List (Option Cut)} (hlen : slots.length = fields.length)
    (h : ∀ j f, fields[j]? = some f → ∃ slot, slots[j]? = some slot ∧
      Hop.Leaves ⟨.structField, f⟩ keep (index + j) slot) :
    restrictEach fields slots = keepOnlyFrom keep index fields := by
  induction fields generalizing slots index with
  | nil => cases slots <;> rfl
  | cons f fields ih =>
    cases slots with
    | nil => cases hlen
    | cons slot slots =>
      obtain ⟨slot', hslot, hf⟩ := h 0 f rfl
      obtain rfl : slot = slot' := Option.some.inj hslot
      have htail : restrictEach fields slots = keepOnlyFrom keep (index + 1) fields :=
        ih (Nat.succ.inj hlen) fun j g hg => by
          rw [Nat.add_right_comm, Nat.add_assoc]
          exact h (j + 1) g hg
      have hhead := hf.isSome_eq
      rw [Nat.add_zero] at hhead
      cases f
      cases slot with
      | none => rw [restrictEach, htail, keepOnlyFrom, if_neg (by simpa using hhead.symm)]
      | some c =>
        have hkeep : keep [index] = true := hhead.symm
        rw [restrictEach, htail, keepOnlyFrom, if_pos hkeep, (hf.leaves c rfl).restrict_eq]
        rfl

section Assemble
variable {t : ColumnType} {keep : List Nat → Bool} {slots : List (Option Cut)}

/-- The cut of a slot that is not dropped. -/
theorem Hop.Leaves.restrict_ofSlot {i : Nat} {h : Hop}
    (hslot : ∃ slot, slots[i]? = some slot ∧ h.Leaves keep i slot) (hkeep : keep [i] = true) :
    h.field.type.restrict (Cut.ofSlot slots i) =
      h.field.type.keepOnly fun pos => keep (i :: pos) := by
  obtain ⟨slot, hi, hleaves⟩ := hslot
  have hsome : slot.isSome = true := hleaves.isSome_eq.trans hkeep
  obtain ⟨c, rfl⟩ := Option.isSome_iff_exists.1 hsome
  have hc : Cut.ofSlot slots i = c := by simp [Cut.ofSlot, hi]
  rw [hc]
  exact (hleaves.leaves c rfl).restrict_eq

/-- A node over slots that leave what is kept of theirs is the restricted type, if the slots of a
list or a map are not dropped. -/
theorem Cut.restrict_part_eq_keepOnly (hslots : AllLeave slots t keep)
    (heven : t.isStruct = false → ∀ i h, t.hops[i]? = some h → keep [i] = true) :
    t.restrict (part slots) = t.keepOnly keep := by
  cases t with
  | primitive p => rfl
  | struct fields =>
    have hfields : Field.restrictEach fields slots = Field.keepOnlyFrom keep 0 fields :=
      Field.restrictEach_eq_keepOnlyFrom (by simpa [ColumnType.hops] using hslots.length_eq)
        fun j f hf => by
          rw [Nat.zero_add]
          exact hslots.slot j ⟨.structField, f⟩ (by simp [ColumnType.hops, hf])
    rw [ColumnType.restrict, ColumnType.keepOnly, hfields]
  | list id type optional =>
    have htype := Hop.Leaves.restrict_ofSlot (hslots.slot 0 _ rfl) (heven rfl 0 _ rfl)
    rw [ColumnType.restrict, ColumnType.keepOnly]
    exact congrArg (ColumnType.list id · optional) htype
  | map keyId key valueId value optional =>
    have hkey := Hop.Leaves.restrict_ofSlot (hslots.slot 0 _ rfl) (heven rfl 0 _ rfl)
    have hvalue := Hop.Leaves.restrict_ofSlot (hslots.slot 1 _ rfl) (heven rfl 1 _ rfl)
    rw [ColumnType.restrict, ColumnType.keepOnly]
    exact congrArg₂ (ColumnType.map keyId · valueId · optional) hkey hvalue

/-- **Putting together slots that leave what is kept of theirs** leaves what is kept of the type. -/
theorem Cut.assemble_leaves {c : Cut} (hc : assemble slots = some c)
    (hslots : AllLeave slots t keep)
    (heven : t.isStruct = false → ∀ i h, t.hops[i]? = some h → keep [i] = true)
    (hdropped : ∀ i h, t.hops[i]? = some h → keep [i] = false →
      ∀ p ∈ h.field.type.places, keep (i :: p.position) = false) :
    c.Leaves t keep := by
  refine ⟨?_, .node heven (fun i h hi hkeep => ?_) hdropped⟩
  · cases c with
    | whole =>
      -- Each slot is kept whole and thereby restricted to itself, so the type is too.
      have hwhole := (assemble_eq_whole_iff.1 hc).2
      rw [ColumnType.restrict_whole, ColumnType.keepOnly_eq_self_of_slots fun i h hi => ?_]
      obtain ⟨slot, hslot, hleaves⟩ := hslots.slot i h hi
      obtain rfl := hwhole slot (List.mem_of_getElem? hslot)
      have htype := (hleaves.leaves whole rfl).restrict_eq
      rw [ColumnType.restrict_whole] at htype
      exact ⟨hleaves.isSome_eq.symm, htype.symm⟩
    | part slots' =>
      obtain rfl : slots = slots' := eq_of_assemble_eq_part hc
      exact restrict_part_eq_keepOnly hslots heven
  · obtain ⟨slot, -, hleaves⟩ := hslots.slot i h hi
    obtain ⟨c, rfl⟩ := Option.isSome_iff_exists.1 (hleaves.isSome_eq.trans hkeep)
    exact (hleaves.leaves c rfl).keepable

end Assemble

end TableSchema
