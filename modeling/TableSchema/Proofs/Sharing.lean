import TableSchema.Proofs.Survivors
import TableSchema.Samples

/-!
# What pruning shares with its source

A node that a cut keeps whole is the node of the source, and a node that it takes apart is a new
one.  Pruning takes no node apart in vain: where the type that is left is the one that was there,
the node is kept, for the whole type as for the type of every field that survives, however deep
(`ColumnType.prune_shares`).  This is seen slot by slot from the bottom up (`Cut.Tight`).  A node is
put together from its slots, and if it is as it was then each of its slots is there, with its type
as it was, so that each is kept whole and the node with them.

There is one exception.  With the extent `exact` a struct that is asked for by its own number and of
which no field is kept comes back as a new empty struct, and that is so even if it was empty before.
-/

namespace TableSchema

/-- **A cut that takes nothing apart in vain**: what it leaves as it was, be it the type itself or
the type of a field, it keeps whole. -/
structure Cut.Tight (c : Cut) (t : ColumnType) : Prop where
  eq_whole : t.restrict c = t → c = .whole
  eq_whole_of_at? : ∀ p ∈ t.places, ∀ kept, c.at? p.position = some kept →
    p.field.type.restrict kept = p.field.type → kept = .whole

namespace Cut
variable {t : ColumnType}

theorem whole_tight (t : ColumnType) : whole.Tight t := by
  refine ⟨fun _ => rfl, fun p _ kept hkept _ => ?_⟩
  rw [at?_whole, Option.some.injEq] at hkept
  exact hkept.symm

/-- An empty struct that is put in differs from a struct that has fields. -/
theorem bare_tight (hstruct : t.isStruct = true) (hfull : t ≠ .struct []) : bare.Tight t := by
  refine ⟨fun hsame => ?_, fun p hp kept hkept => ?_⟩
  · cases t with
    | struct fields =>
      rw [ColumnType.restrict_bare] at hsame
      exact absurd hsame.symm hfull
    | _ => cases hstruct
  · rw [at?_bare (ColumnType.position_ne_nil hp)] at hkept
    cases hkept

/-- A node of which all slots are there and kept whole is not a new one. -/
theorem eq_whole_of_assemble {slots : List (Option Cut)} {c : Cut} (hc : assemble slots = some c)
    (h : ∀ slot ∈ slots, slot = some whole) : c = whole := by
  have hne : slots ≠ [] := by
    rintro rfl
    cases hc
  exact Option.some.inj (hc.symm.trans (assemble_eq_whole_iff.2 ⟨hne, h⟩))

/-- **A node put together from slots that are tight is tight.** -/
theorem tight_of_assemble {keep : List Nat → Bool} {slots : List (Option Cut)} {c : Cut}
    (hc : assemble slots = some c) (hslots : AllLeave slots t keep) (hleaves : c.Leaves t keep)
    (htight : ∀ (i : Nat) (h : Hop) (kept : Cut), t.hops[i]? = some h →
      slots[i]? = some (some kept) → kept.Tight h.field.type) : c.Tight t := by
  constructor
  · intro hsame
    refine eq_whole_of_assemble hc fun slot hmem => ?_
    obtain ⟨i, hi⟩ := List.getElem?_of_mem hmem
    obtain ⟨h, hh, hkept⟩ := hslots.exists_hop hi
    -- The slot is there and its type is as it was.
    have hkeepOnly := hleaves.restrict_eq.symm.trans hsame
    obtain ⟨hstruct, htype⟩ := ColumnType.slots_of_keepOnly_eq_self hkeepOnly hh
    have hkeep : keep [i] = true := by
      cases hs : t.isStruct with
      | true => exact hstruct hs
      | false => exact hleaves.keepable.slot hs hh
    obtain ⟨kept, rfl⟩ := Option.isSome_iff_exists.1 (hkept.isSome_eq.trans hkeep)
    rw [(htight i h kept hh hi).eq_whole ((hkept.leaves kept rfl).restrict_eq.trans htype)]
  · intro p hp kept hat hsame
    obtain ⟨i, h, hh, rfl | ⟨q, hq, rfl⟩⟩ := ColumnType.mem_places.1 hp
    · obtain ⟨slot, hslot, -⟩ := hslots.slot i h hh
      rw [Place.position_child, at?_cons_of_assemble hc hslot] at hat
      obtain ⟨kept', rfl, hkept'⟩ := Option.bind_eq_some_iff.1 hat
      rw [at?_nil, Option.some.injEq] at hkept'
      subst hkept'
      exact (htight i h _ hh hslot).eq_whole hsame
    · obtain ⟨slot, hslot, -⟩ := hslots.slot i h hh
      rw [Place.position_below, at?_cons_of_assemble hc hslot] at hat
      obtain ⟨kept', rfl, hat⟩ := Option.bind_eq_some_iff.1 hat
      exact (htight i h kept' hh hslot).eq_whole_of_at? q hq kept hat hsame

end Cut

/-- What comes of a slot is tight if what comes of its type is, and if no empty struct is put in for
an empty struct. -/
theorem Selection.SlotCut.tight {sel : Selection} {t : ColumnType} {h : Hop} {c : Cut}
    (hslot : sel.SlotCut t h (some c))
    (hfull : sel.extent = .exact → h.field.type ≠ .struct [])
    (ih : ∀ c, h.field.type.prune sel = .ok (some c) → c.Tight h.field.type) :
    c.Tight h.field.type := by
  cases hslot with
  | whole => exact Cut.whole_tight _
  | bare extent struct => exact Cut.bare_tight struct (hfull extent)
  | below below => exact ih c below

namespace ColumnType
variable {sel : Selection} {t : ColumnType} {c : Cut}

/-- **Pruning takes nothing apart in vain**, as far as there are no empty structs to be put in anew.
-/
theorem tight_of_prune (h : t.prune sel = .ok (some c))
    (hfull : sel.extent = .exact → ∀ p ∈ t.places, p.field.type ≠ .struct []) : c.Tight t := by
  induction t using induction_hops generalizing c with
  | node t ih =>
    have hleaves := (settles_of_prune h).leaves c rfl
    rcases prune_cases h with ⟨-, hc⟩ | ⟨slots, hcuts, hc⟩
    · obtain rfl : c = .whole := Option.some.inj hc
      exact Cut.whole_tight t
    · have hslots := allLeave_of_slotCuts hcuts
      obtain ⟨-, hc⟩ := assemble_eq_ok hslots hc
      refine Cut.tight_of_assemble hc.symm hslots hleaves fun i hop kept hi hslot => ?_
      obtain ⟨slot, hslot', hcut⟩ := hcuts.slot i hop hi
      obtain rfl : slot = some kept := Option.some.inj (hslot'.symm.trans hslot)
      refine hcut.tight (fun hext => hfull hext _ (child_mem_places hi)) fun c hc => ?_
      exact ih hop (List.mem_of_getElem? hi) hc fun hext q hq =>
        hfull hext (q.below i hop) (below_mem_places hi hq)

/-- **Pruning shares with its source just what is unchanged.**  The node of the source is kept just
if the type that is left is the one that was there.  The fields that are left are the survivors of
the cut, and the type of each is the node of the source just if it is the type that was there. -/
theorem prune_shares (h : t.prune sel = .ok (some c))
    (hfull : sel.extent = .exact → ∀ p ∈ t.places, p.field.type ≠ .struct []) :
    (c = .whole ↔ t.restrict c = t) ∧
    (t.restrict c).places.map (fun q => (q.outline, q.field)) = (t.survivors c).map (fun x =>
      (x.1.outline, x.1.field.withType (x.1.field.type.restrict x.2))) ∧
    ∀ p kept, (p, kept) ∈ t.survivors c →
      (kept = .whole ↔ p.field.type.restrict kept = p.field.type) := by
  have htight := tight_of_prune h hfull
  refine ⟨⟨?_, htight.eq_whole⟩, ?_, fun p kept hp => ?_⟩
  · rintro rfl
    exact restrict_whole t
  · exact (follows_of_prune h).map_outline_places ((settles_of_prune h).leaves c rfl)
  · obtain ⟨hp, hkept⟩ := mem_survivors.1 hp
    refine ⟨?_, htight.eq_whole_of_at? p hp kept hkept⟩
    rintro rfl
    exact restrict_whole _

/-- The two leaves of an address are kept and a name next to the address is not.  So the struct that
holds both is a new one, while the address is that of the source. -/
theorem prune_shares_people :
    ∃ c, (struct Samples.people).prune ⟨[1, 5, 6], .exact⟩ = .ok (some c) ∧
      ((struct Samples.people).survivors c).map (fun x => (x.1.id, decide (x.2 = .whole))) =
        [(1, true), (2, false), (4, true), (5, true), (6, true)] ∧
      (c = .whole ↔ (struct Samples.people).restrict c = struct Samples.people) ∧
      ∀ p kept, (p, kept) ∈ (struct Samples.people).survivors c →
        (kept = .whole ↔ p.field.type.restrict kept = p.field.type) := by
  have h : (struct Samples.people).prune ⟨[1, 5, 6], .exact⟩ = .ok (some _) := rfl
  obtain ⟨htop, -, hfields⟩ := prune_shares h fun _ => by decide
  exact ⟨_, h, rfl, htop, hfields⟩

/-- An empty struct asked for by its own number is not shared though nothing of it changes. -/
example : ∃ c, (struct [.nullable 1 "user" (struct [])]).prune ⟨[1], .exact⟩ = .ok (some c) ∧
    c ≠ .whole ∧ (struct [.nullable 1 "user" (struct [])]).restrict c =
      struct [.nullable 1 "user" (struct [])] :=
  ⟨_, rfl, by decide, rfl⟩

end ColumnType
end TableSchema
