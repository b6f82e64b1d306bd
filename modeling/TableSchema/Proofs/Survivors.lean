import TableSchema.Proofs.Narrowing

/-!
# What is left at each position

A cut says of every field below a type what is left of it (`Cut.at?`): nothing if the field is
dropped, and else the cut of its type.  The fields of which something is left are the survivors of
the cut (`ColumnType.survivors`), and they are the places of the restricted type, in order
(`Cut.Follows.map_outline_places`).  A cut knows more than the kept positions do, since it also
tells the nodes that are shared with the source from the new ones.

What pruning leaves at each position are the kept positions (`ColumnType.follows_of_prune`).  That
makes precise which fields of a schema survive in the one derived from it
(`Schema.narrowsTo_survives`).
-/

namespace TableSchema

/-! ## Cuts at positions -/

namespace Cut

/-- **What is left at a position** of a type under a cut: nothing if the field that stands there is
dropped, and else the cut of its type.  Below a node that is kept whole everything is. -/
def at? (c : Cut) : List Nat → Option Cut
  | [] => some c
  | index :: rest =>
    match c with
    | whole => some whole
    | part slots => slots[index]?.join.bind fun c => c.at? rest

@[simp] theorem at?_nil (c : Cut) : c.at? [] = some c := by
  cases c <;> rfl

@[simp] theorem at?_whole (pos : List Nat) : whole.at? pos = some whole := by
  cases pos <;> rfl

@[simp] theorem at?_part_cons (slots : List (Option Cut)) (i : Nat) (pos : List Nat) :
    (part slots).at? (i :: pos) = slots[i]?.join.bind fun c => c.at? pos := rfl

/-- Nothing is left below a struct that is put in bare. -/
theorem at?_bare {pos : List Nat} (hpos : pos ≠ []) : bare.at? pos = none := by
  cases pos with
  | nil => exact absurd rfl hpos
  | cons i pos => rfl

/-- In a node that is put together from its slots what is left is what is left in the slots, be the
node a new one or not. -/
theorem at?_cons_of_assemble {slots : List (Option Cut)} {c : Cut} (hc : assemble slots = some c)
    {i : Nat} {slot : Option Cut} (hi : slots[i]? = some slot) (pos : List Nat) :
    c.at? (i :: pos) = slot.bind fun kept => kept.at? pos := by
  cases c with
  | whole =>
    have hslot : slot = some whole :=
      (assemble_eq_whole_iff.1 hc).2 slot (List.mem_of_getElem? hi)
    rw [hslot, at?_whole, Option.bind_some, at?_whole]
  | part slots' =>
    rw [at?_part_cons, ← eq_of_assemble_eq_part hc, hi]
    rfl

end Cut

/-- **The survivors of a cut**: the places of which something is left, each with the cut of its
field's type. -/
def ColumnType.survivors (t : ColumnType) (c : Cut) : List (Place × Cut) :=
  t.places.filterMap fun p => (c.at? p.position).map fun kept => (p, kept)

theorem ColumnType.mem_survivors {t : ColumnType} {c kept : Cut} {p : Place} :
    (p, kept) ∈ t.survivors c ↔ p ∈ t.places ∧ c.at? p.position = some kept := by
  simp [survivors, and_comm]

/-- **A cut that follows what is kept**: something is left of a field just if its position is kept,
and what is left of its type is what is kept below. -/
structure Cut.Follows (c : Cut) (t : ColumnType) (keep : List Nat → Bool) : Prop where
  isSome_at? : ∀ p ∈ t.places, (c.at? p.position).isSome = keep p.position
  leaves : ∀ p ∈ t.places, ∀ kept, c.at? p.position = some kept →
    kept.Leaves p.field.type fun pos => keep (p.position ++ pos)

namespace Cut
variable {c : Cut} {t : ColumnType} {keep keep' : List Nat → Bool}

theorem Follows.congr (hc : c.Follows t keep) (h : ∀ pos, pos ≠ [] → keep pos = keep' pos) :
    c.Follows t keep' := by
  refine ⟨fun p hp => ?_, fun p hp kept hkept => ?_⟩
  · rw [hc.isSome_at? p hp, h _ (ColumnType.position_ne_nil hp)]
  · refine (hc.leaves p hp kept hkept).congr fun pos _ => h _ ?_
    exact List.append_ne_nil_of_left_ne_nil (ColumnType.position_ne_nil hp) pos

/-- A node that is kept whole leaves everything below it. -/
theorem whole_follows (h : ∀ i hop, t.hops[i]? = some hop → ∀ pos, keep (i :: pos) = true) :
    whole.Follows t keep := by
  have hall : ∀ p ∈ t.places, ∀ pos, keep (p.position ++ pos) = true := by
    intro p hp pos
    obtain ⟨i, hop, hi, rfl | ⟨q, -, rfl⟩⟩ := ColumnType.mem_places.1 hp
    · exact h i hop hi pos
    · exact h i hop hi (q.position ++ pos)
  refine ⟨fun p hp => ?_, fun p hp kept hkept => ?_⟩
  · rw [at?_whole, Option.isSome_some, ← List.append_nil p.position, hall p hp []]
  · rw [at?_whole, Option.some.injEq] at hkept
    rw [← hkept]
    exact whole_leaves fun i _ _ pos => hall p hp (i :: pos)

/-- An empty struct that is put in leaves nothing below it. -/
theorem bare_follows (h : ∀ p ∈ t.places, keep p.position = false) : bare.Follows t keep := by
  refine ⟨fun p hp => ?_, fun p hp kept hkept => ?_⟩
  · rw [at?_bare (ColumnType.position_ne_nil hp), h p hp, Option.isSome_none]
  · rw [at?_bare (ColumnType.position_ne_nil hp)] at hkept
    cases hkept

/-- **The places of the restricted type are the survivors of the cut**, in order, each with the same
slots on the way and with what is left of its type. -/
theorem Follows.map_outline_places (hc : c.Follows t keep) (hleaves : c.Leaves t keep) :
    (t.restrict c).places.map (fun q => (q.outline, q.field)) =
      (t.survivors c).map fun x =>
        (x.1.outline, x.1.field.withType (x.1.field.type.restrict x.2)) := by
  rw [hleaves.restrict_eq, hleaves.keepable.map_outline_places, ColumnType.survivors,
    List.map_filterMap, ← List.filterMap_eq_map, ← List.filterMap_eq_filter,
    List.filterMap_filterMap]
  refine List.filterMap_congr fun p hp => ?_
  have hsome := hc.isSome_at? p hp
  cases hkept : c.at? p.position with
  | none =>
    have hkeep : keep p.position = false := by rw [← hsome, hkept, Option.isSome_none]
    simp [Option.guard, hkeep]
  | some kept =>
    have hkeep : keep p.position = true := by rw [← hsome, hkept, Option.isSome_some]
    have htype := (hc.leaves p hp kept hkept).restrict_eq
    simp [Option.guard, hkeep, Place.remnant, htype]

end Cut

/-! ## One slot -/

namespace Selection
variable {sel : Selection} {t : ColumnType} {h : Hop}

/-- **What is left in a slot follows what is kept in it.** -/
theorem SlotCut.follows {i : Nat} {c : Cut} (hi : t.hops[i]? = some h)
    (hslot : sel.SlotCut t h (some c))
    (ih : ∀ c, h.field.type.prune sel = .ok (some c) →
      c.Follows h.field.type (sel.keeps h.field.type)) :
    c.Follows h.field.type fun pos => sel.keeps t (i :: pos) := by
  cases hslot with
  | whole kept all =>
    refine Cut.whole_follows fun j hop hj pos => ?_
    rcases all with hsub | hprim
    · exact keeps_cons_of_subtree hi hsub kept (j :: pos)
    · cases htype : h.field.type <;> rw [htype] at hj hprim
      · cases hj
      all_goals cases hprim
  | bare extent struct kept below =>
    have hnone := (ColumnType.settles_of_prune below).isSome_eq.symm
    refine Cut.bare_follows fun p hp => ?_
    rw [keeps_cons_of_ne_nil hi (by simp [extent]) (ColumnType.position_ne_nil hp)]
    exact keeps_of_finds_eq_false hnone p.position
  | below below part _ =>
    exact (ih c below).congr fun pos hpos => (keeps_cons_of_ne_nil hi part hpos).symm

end Selection

/-! ## The whole type -/

namespace ColumnType
variable {sel : Selection} {t : ColumnType}

/-- **What pruning leaves at each position follows what the selection keeps.** -/
theorem follows_of_prune {c : Cut} (h : t.prune sel = .ok (some c)) :
    c.Follows t (sel.keeps t) := by
  induction t using induction_hops generalizing c with
  | node t ih =>
    rcases prune_cases h with ⟨ht, hc⟩ | ⟨slots, hcuts, hc⟩
    · obtain rfl : c = .whole := Option.some.inj hc
      exact Cut.whole_follows fun _ _ hi => Selection.keeps_of_takesMap ht hi
    · obtain ⟨-, hc⟩ := assemble_eq_ok (allLeave_of_slotCuts hcuts) hc
      -- What is left at a position is what is left there in the slot that it goes through.
      have hslot : ∀ i hop, t.hops[i]? = some hop → ∃ slot, hop.Leaves (sel.keeps t) i slot ∧
          (∀ kept, slot = some kept → kept.Follows hop.field.type fun pos =>
            sel.keeps t (i :: pos)) ∧
          ∀ pos, c.at? (i :: pos) = slot.bind fun kept => kept.at? pos := by
        intro i hop hi
        have hh := List.mem_of_getElem? hi
        obtain ⟨slot, hslot, hcut⟩ := hcuts.slot i hop hi
        have hleaves := hcut.leaves hi fun _ hcut => settles_of_prune hcut
        refine ⟨slot, hleaves, ?_, Cut.at?_cons_of_assemble hc.symm hslot⟩
        rintro kept rfl
        exact hcut.follows hi fun c hc => ih hop hh hc
      refine ⟨fun p hp => ?_, fun p hp kept hkept => ?_⟩
      · obtain ⟨i, hop, hi, rfl | ⟨q, hq, rfl⟩⟩ := mem_places.1 hp
        · obtain ⟨slot, hleaves, -, hat⟩ := hslot i hop hi
          rw [Place.position_child, hat, ← hleaves.isSome_eq]
          cases slot <;> rfl
        · obtain ⟨slot, hleaves, hfollows, hat⟩ := hslot i hop hi
          rw [Place.position_below, hat]
          cases slot with
          | none => exact (Selection.keeps_cons_eq_false hi hleaves.isSome_eq.symm _).symm
          | some kept => exact (hfollows kept rfl).isSome_at? q hq
      · obtain ⟨i, hop, hi, rfl | ⟨q, hq, rfl⟩⟩ := mem_places.1 hp
        · obtain ⟨slot, hleaves, -, hat⟩ := hslot i hop hi
          rw [Place.position_child, hat] at hkept
          obtain ⟨c', rfl, hc'⟩ := Option.bind_eq_some_iff.1 hkept
          rw [Cut.at?_nil, Option.some.injEq] at hc'
          exact hc' ▸ hleaves.leaves c' rfl
        · obtain ⟨slot, -, hfollows, hat⟩ := hslot i hop hi
          rw [Place.position_below, hat] at hkept
          obtain ⟨c', rfl, hc'⟩ := Option.bind_eq_some_iff.1 hkept
          exact (hfollows c' rfl).leaves q hq kept hc'

end ColumnType

/-! ## Schemas -/

/-- Whether something is left of the field at a position of the source. -/
def Derived.survives (d : Derived) (pos : List Nat) : Bool := (d.cut.at? pos).isSome

/-- A narrowed schema is given by the kept ones among the places of its source. -/
theorem Derived.NarrowsTo.congr {d : Derived} {s : Schema} {keep keep' : List Nat → Bool}
    (h : d.NarrowsTo s keep) (hsame : ∀ p ∈ s.root.places, keep p.position = keep' p.position) :
    d.NarrowsTo s keep' := by
  have hremnant : ∀ p ∈ s.root.places, p.remnant keep = p.remnant keep' := by
    intro p hp
    rw [Place.remnant, Place.remnant, ColumnType.keepOnly_congr_of_places fun r hr => ?_]
    obtain ⟨q, hq, hpos, -⟩ := ColumnType.exists_place_append hp hr
    rw [← hpos]
    exact hsame q hq
  refine ⟨h.schemaId_eq, ?_, ?_, fun p hp hstruct hnone => ?_, fun hnone => ?_⟩
  · rw [h.root_eq, ColumnType.keepOnly_congr_of_places hsame]
  · rw [h.places_eq, List.filter_congr hsame]
    refine List.map_congr_left fun p hp => ?_
    rw [hremnant p (List.mem_filter.1 hp).1]
  · rw [← hremnant p hp]
    refine h.struct_eq_empty p hp hstruct fun q hq hchild => ?_
    rw [hsame q hq]
    exact hnone q hq hchild
  · refine h.eq_empty fun p hp => ?_
    rw [hsame p hp]
    exact hnone p hp

namespace Schema
variable {s : Schema} {sel : Selection} {d : Derived}

/-- **The fields that survive in a pruned schema are those that the selection keeps.** -/
theorem survives_eq_keeps (h : s.prune sel = .ok d) {p : Place} (hp : p ∈ s.root.places) :
    d.survives p.position = sel.keeps s.root p.position := by
  obtain ⟨cut, hcut, h⟩ := bind_eq_ok_iff.1 h
  cases cut with
  | none =>
    cases h
    have hnone := (ColumnType.settles_of_prune hcut).isSome_eq.symm
    rw [Derived.survives, Cut.at?_bare (ColumnType.position_ne_nil hp), Option.isSome_none,
      Selection.keeps_of_finds_eq_false hnone]
  | some c =>
    obtain ⟨fields, hfields⟩ := s.exists_restrict_root_eq_struct c
    simp only [hfields, ofRoot_struct] at h
    cases h
    exact (ColumnType.follows_of_prune hcut).isSome_at? p hp

/-- **A pruned schema is its source narrowed to the fields that survive.** -/
theorem narrowsTo_survives (h : s.prune sel = .ok d) : d.NarrowsTo s d.survives :=
  (narrowsTo_of_prune h).congr fun _ hp => (survives_eq_keeps h hp).symm

end Schema
end TableSchema
