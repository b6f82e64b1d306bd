import TableSchema.Place
import TableSchema.SchemaError

/-!
# Looking fields up by number

The index records for every field of a type the position at which it stands.  It can be built
only if no two fields, however deep, have the same number; otherwise the number that is met a
second time first is reported.  Positions are read off the type they were recorded from, or off
another of the same shape.
-/

namespace TableSchema

/-- The positions of fields by their numbers. -/
structure IdIndex where
  /-- The numbers with their positions, in the order of the places. -/
  entries : List (FieldId × List Nat)
  deriving DecidableEq

namespace IdIndex

def empty : IdIndex := ⟨[]⟩

/-- The position recorded for a number. -/
def position? (index : IdIndex) (id : FieldId) : Option (List Nat) := index.entries.lookup id

/-- Whether a number is recorded. -/
def contains (index : IdIndex) (id : FieldId) : Bool := (index.position? id).isSome

/-- Records one more place, unless its number is taken. -/
def record (index : IdIndex) (p : Place) : Except SchemaError IdIndex :=
  if index.contains p.id then .error (.duplicateId p.id)
  else .ok ⟨index.entries ++ [(p.id, p.position)]⟩

/-- The index of all places of a type. -/
def build (root : ColumnType) : Except SchemaError IdIndex := root.places.foldlM record empty

/-- The recorded numbers, in the order of the places. -/
def ids (index : IdIndex) : List FieldId := index.entries.map Prod.fst

def size (index : IdIndex) : Nat := index.entries.length

/-- The greatest recorded number. -/
def highest? (index : IdIndex) : Option FieldId := index.ids.max?

/-- The field of `root` that stands at the position recorded for a number. -/
def find? (index : IdIndex) (root : ColumnType) (id : FieldId) : Option Field :=
  (index.position? id).bind root.fieldAt?

end IdIndex
end TableSchema
