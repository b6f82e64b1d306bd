/-!
# Field and schema numbers

A field is known by its number wherever it sits in a schema and whatever it is called; a schema is
known by its number among the schemas one table went through.  Both numbers are 32-bit signed words
that are only compared and printed, never computed with.
-/

namespace TableSchema

/-- The number of a field, meant to be unique among all fields of a schema, nested ones included. -/
structure FieldId where
  val : Int32
  deriving DecidableEq

namespace FieldId

/-- A number written in digits stands for the field id of that number. -/
instance (n : Nat) : OfNat FieldId n := ⟨⟨OfNat.ofNat n⟩⟩

instance : LE FieldId := ⟨fun a b => a.val ≤ b.val⟩

instance (a b : FieldId) : Decidable (a ≤ b) := inferInstanceAs (Decidable (a.val ≤ b.val))

instance : Max FieldId := maxOfLe

/-- The number in decimal digits, with a minus sign below zero. -/
def text (id : FieldId) : String := toString id.val.toInt

instance : ToString FieldId := ⟨text⟩

/-- The same ids, smallest first. -/
def ascending (ids : List FieldId) : List FieldId := ids.mergeSort (fun a b => decide (a ≤ b))

theorem le_def {a b : FieldId} : a ≤ b ↔ a.val ≤ b.val := Iff.rfl

theorem max_def (a b : FieldId) : max a b = if a ≤ b then b else a := rfl

/-- Ids are ordered as their numbers are. -/
instance : Std.IsLinearOrder FieldId where
  le_refl id := Int32.le_refl id.val
  le_trans _ _ _ h h' := Int32.le_trans h h'
  le_antisymm _ _ h h' := congrArg FieldId.mk (Int32.le_antisymm h h')
  le_total a b := Int32.le_total a.val b.val

/-- The greater of two ids is one of them, and not below the other. -/
instance : Std.LawfulOrderMax FieldId := by
  refine .of_le_max (fun a b => ?_) (fun a b => ?_) (fun a b => ?_)
  · rw [max_def]
    split
    · assumption
    · exact Std.le_refl a
  · rw [max_def]
    split
    · exact Std.le_refl b
    · exact Std.le_of_not_ge ‹_›
  · rw [max_def]
    split
    · exact .inr rfl
    · exact .inl rfl

/-- Sorting neither loses an id nor adds one. -/
theorem ascending_perm (ids : List FieldId) : (ascending ids).Perm ids := List.mergeSort_perm _ _

end FieldId

/-- The number of a schema among the schemas of a table. -/
structure SchemaId where
  val : Int32
  deriving DecidableEq

namespace SchemaId

/-- The number a table gives to its first schema. -/
def initial : SchemaId := ⟨0⟩

instance : LE SchemaId := ⟨fun a b => a.val ≤ b.val⟩

instance (a b : SchemaId) : Decidable (a ≤ b) := inferInstanceAs (Decidable (a.val ≤ b.val))

/-- The number in decimal digits, with a minus sign below zero. -/
def text (id : SchemaId) : String := toString id.val.toInt

instance : ToString SchemaId := ⟨text⟩

/-- The same ids, greatest first. -/
def descending (ids : List SchemaId) : List SchemaId := ids.mergeSort (fun a b => decide (b ≤ a))

/-- Sorting neither loses an id nor adds one. -/
theorem descending_perm (ids : List SchemaId) : (descending ids).Perm ids := List.mergeSort_perm _ _

end SchemaId

end TableSchema
