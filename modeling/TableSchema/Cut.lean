import TableSchema.NodeWalk

/-!
# What is kept of a type

A `Cut` says which part of a type is kept.  Either a node is kept whole, with everything below
it, or it is taken apart and each of its slots is dropped or kept under a cut of its own.  A
node kept whole is the node of the source itself and is shared with it; a node taken apart is a
new one.  So a cut tells two things: the type that results (`ColumnType.restrict`), and where
each node of that type comes from (`ColumnType.origin`).
-/

namespace TableSchema

/-- What is kept of one type. -/
inductive Cut where
  /-- Everything, as it is. -/
  | whole
  /-- A new node over some slots: for each slot in order the cut of its type, or nothing if the
  slot is dropped.  Slots of a struct beyond the last mark are dropped. -/
  | part (slots : List (Option Cut))

namespace Cut

/-- A struct without the fields it had. -/
def bare : Cut := part []

def isWhole : Cut → Bool
  | whole => true
  | part _ => false

/-- The cut of slot number `index` of a list or a map.  Such slots cannot be dropped, so one
without a cut of its own is kept whole. -/
def ofSlot (slots : List (Option Cut)) (index : Nat) : Cut := (slots[index]?.join).getD whole

/-- **Putting a node together** from what is kept of its slots: nothing if no slot is kept, the node
itself if every slot is kept whole, and otherwise a new node. -/
def assemble (slots : List (Option Cut)) : Option Cut :=
  if slots.all Option.isNone then none
  else if slots.all fun slot => slot.any isWhole then some whole
  else some (part slots)

@[simp] theorem isWhole_eq_true_iff {c : Cut} : c.isWhole = true ↔ c = whole := by
  cases c <;> simp [isWhole]

/-- A node without slots is not kept for its own sake. -/
@[simp] theorem assemble_nil : assemble [] = none := rfl

@[simp] theorem any_isWhole_eq_true_iff {slot : Option Cut} :
    slot.any isWhole = true ↔ slot = some whole := by
  cases slot <;> simp

theorem assemble_eq_none_iff {slots : List (Option Cut)} :
    assemble slots = none ↔ ∀ slot ∈ slots, slot = none := by
  unfold assemble
  split
  · rename_i h
    simpa using h
  · rename_i h
    split <;> simpa using h

/-- A node stays the node it was exactly if it has slots and all of them are kept whole. -/
theorem assemble_eq_whole_iff {slots : List (Option Cut)} :
    assemble slots = some whole ↔ slots ≠ [] ∧ ∀ slot ∈ slots, slot = some whole := by
  cases slots with
  | nil => simp
  | cons slot slots =>
    unfold assemble
    split
    · rename_i h
      simp only [List.all_cons, Bool.and_eq_true, Option.isNone_iff_eq_none] at h
      simp [h.1]
    · split <;> rename_i h <;> simpa using h

/-- A new node is the one over the slots it is put together from. -/
theorem eq_of_assemble_eq_part {slots slots' : List (Option Cut)}
    (h : assemble slots = some (part slots')) : slots = slots' := by
  unfold assemble at h
  split at h
  · cases h
  · split at h <;> cases h
    rfl

mutual

/-- Cuts are compared slot by slot. -/
def decEq : (c d : Cut) → Decidable (c = d)
  | whole, whole => .isTrue rfl
  | part cs, part ds =>
    have := decEqSlots cs ds
    decidable_of_iff (cs = ds) (by simp)
  | whole, part _ | part _, whole => .isFalse nofun

def decEqSlots : (cs ds : List (Option Cut)) → Decidable (cs = ds)
  | [], [] => .isTrue rfl
  | none :: cs, none :: ds =>
    have := decEqSlots cs ds
    decidable_of_iff (cs = ds) (by simp)
  | some c :: cs, some d :: ds =>
    have := decEq c d
    have := decEqSlots cs ds
    decidable_of_iff (c = d ∧ cs = ds) (by simp)
  | none :: _, some _ :: _ | some _ :: _, none :: _ | [], _ :: _ | _ :: _, [] => .isFalse nofun

end

instance : DecidableEq Cut := decEq

end Cut

mutual

/-- The type that a cut leaves. -/
def ColumnType.restrict : ColumnType → Cut → ColumnType
  | t, .whole => t
  | .primitive p, .part _ => .primitive p
  | .struct fields, .part slots => .struct (Field.restrictEach fields slots)
  | .list id type optional, .part slots => .list id (type.restrict (Cut.ofSlot slots 0)) optional
  | .map keyId key valueId value optional, .part slots =>
    .map keyId (key.restrict (Cut.ofSlot slots 0)) valueId (value.restrict (Cut.ofSlot slots 1))
      optional

/-- The fields that are left of some fields, in order, with what is left of their types. -/
def Field.restrictEach : List Field → List (Option Cut) → List Field
  | ⟨id, name, type, optional, doc⟩ :: fields, some c :: slots =>
    ⟨id, name, type.restrict c, optional, doc⟩ :: Field.restrictEach fields slots
  | _ :: fields, none :: slots => Field.restrictEach fields slots
  | _, _ => []

end

/-- How many nodes a type has. -/
def ColumnType.nodeCount (t : ColumnType) : Nat := t.nodes.length

mutual

/-- Where the nodes of a restricted type come from, in the order of the walk.  The nodes of the
source are counted in the order of its own walk, the top being number `first`.  A node that is
shared with the source is written as its number and stands for all nodes below it; a new node is
written as `none`. -/
def ColumnType.origin (first : Nat) : ColumnType → Cut → List (Option Nat)
  | _, .whole => [some first]
  | .primitive _, .part _ => [none]
  | .struct fields, .part slots => none :: Field.originEach (first + 1) fields slots
  | .list _ type _, .part slots => none :: type.origin (first + 1) (Cut.ofSlot slots 0)
  | .map _ key _ value _, .part slots =>
    none :: (key.origin (first + 1) (Cut.ofSlot slots 0) ++
      value.origin (first + 1 + key.nodeCount) (Cut.ofSlot slots 1))

/-- Where the nodes in the kept ones of some fields come from. -/
def Field.originEach (first : Nat) : List Field → List (Option Cut) → List (Option Nat)
  | ⟨_, _, type, _, _⟩ :: fields, some c :: slots =>
    type.origin first c ++ Field.originEach (first + type.nodeCount) fields slots
  | ⟨_, _, type, _, _⟩ :: fields, none :: slots =>
    Field.originEach (first + type.nodeCount) fields slots
  | _, _ => []

end

@[simp] theorem ColumnType.restrict_whole (t : ColumnType) : t.restrict .whole = t := by
  cases t <;> simp [restrict]

/-- Nothing is left of the fields of a struct that is put in bare. -/
@[simp] theorem ColumnType.restrict_bare (fields : List Field) :
    (struct fields).restrict .bare = struct [] := by
  cases fields <;> simp [restrict, Cut.bare, Field.restrictEach]

/-- **A cut never changes the kind of a type.** -/
@[simp] theorem ColumnType.kind_restrict (t : ColumnType) (c : Cut) :
    (t.restrict c).kind = t.kind := by
  cases t <;> cases c <;> simp [restrict, kind]

theorem Field.restrictEach_cons_some (f : Field) (fields : List Field) (c : Cut)
    (slots : List (Option Cut)) :
    restrictEach (f :: fields) (some c :: slots) =
      f.withType (f.type.restrict c) :: restrictEach fields slots := by
  cases f
  simp [restrictEach, withType]

theorem Field.restrictEach_cons_none (f : Field) (fields : List Field) (slots : List (Option Cut)) :
    restrictEach (f :: fields) (none :: slots) = restrictEach fields slots := by
  cases f
  simp [restrictEach]

end TableSchema
