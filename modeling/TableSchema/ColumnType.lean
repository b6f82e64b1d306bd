import TableSchema.AsciiFold
import TableSchema.Ident
import TableSchema.Primitive

/-!
# Column types

A column type is a leaf, a struct of named fields, a list with one element slot, or a map with a
key slot and a value slot.  Every slot is a `Field`: it has a number, a name, a type, a mark
whether it may be empty, and possibly a note.  Only the fields of a struct are named freely.
The slots of lists and maps have fixed names and no note, and a key may never be empty, so a
list or a map stores just what can differ and its slots are built by `Field.element`,
`Field.mapKey` and `Field.mapValue`.

Types and struct fields form one mutual family, so functions on them recurse on the two
together; `ColumnType.induction` is the matching principle for proofs that need types alone.
-/

namespace TableSchema

mutual

/-- What a column holds. -/
inductive ColumnType where
  /-- A leaf. -/
  | primitive (leaf : Primitive)
  /-- Fields in order. -/
  | struct (fields : List Field)
  /-- Any number of elements of one type. -/
  | list (id : FieldId) (type : ColumnType) (optional : Bool)
  /-- Values of one type under keys of another. -/
  | map (keyId : FieldId) (key : ColumnType) (valueId : FieldId) (value : ColumnType)
      (valueOptional : Bool)

/-- A numbered and named slot of a struct, a list or a map. -/
structure Field where
  id : FieldId
  name : String
  type : ColumnType
  /-- Whether the slot may be empty. -/
  optional : Bool
  /-- A note for the reader; the empty note is a note. -/
  doc : Option String

end

/-! ## Equality -/

mutual

/-- Types are compared part by part. -/
def ColumnType.decEq : (s t : ColumnType) → Decidable (s = t)
  | .primitive p, .primitive q => decidable_of_iff (p = q) (by simp)
  | .struct fs, .struct gs =>
    have := Field.decEqList fs gs
    decidable_of_iff (fs = gs) (by simp)
  | .list i s o, .list j t p =>
    have := ColumnType.decEq s t
    decidable_of_iff (i = j ∧ s = t ∧ o = p) (by simp)
  | .map i k j v o, .map i' k' j' v' o' =>
    have := ColumnType.decEq k k'
    have := ColumnType.decEq v v'
    decidable_of_iff (i = i' ∧ k = k' ∧ j = j' ∧ v = v' ∧ o = o') (by simp)
  | .primitive _, .struct _ | .primitive _, .list .. | .primitive _, .map ..
  | .struct _, .primitive _ | .struct _, .list .. | .struct _, .map ..
  | .list .., .primitive _ | .list .., .struct _ | .list .., .map ..
  | .map .., .primitive _ | .map .., .struct _ | .map .., .list .. => .isFalse nofun

/-- Fields are compared in order and each in all its parts. -/
def Field.decEqList : (fs gs : List Field) → Decidable (fs = gs)
  | [], [] => .isTrue rfl
  | ⟨i, n, s, o, d⟩ :: fs, ⟨i', n', t, o', d'⟩ :: gs =>
    have := ColumnType.decEq s t
    have := Field.decEqList fs gs
    decidable_of_iff ((i = i' ∧ n = n' ∧ s = t ∧ o = o' ∧ d = d') ∧ fs = gs) (by simp)
  | [], _ :: _ | _ :: _, [] => .isFalse nofun

end

instance : DecidableEq ColumnType := ColumnType.decEq

instance : DecidableEq Field := fun
  | ⟨i, n, s, o, d⟩, ⟨i', n', t, o', d'⟩ =>
    decidable_of_iff (i = i' ∧ n = n' ∧ s = t ∧ o = o' ∧ d = d') (by simp)

/-! ## Fields -/

namespace Field

/-- A field of a struct that may be empty, without a note. -/
def nullable (id : FieldId) (name : String) (type : ColumnType) : Field :=
  ⟨id, name, type, true, none⟩

/-- A field of a struct that must be filled, without a note. -/
def required (id : FieldId) (name : String) (type : ColumnType) : Field :=
  ⟨id, name, type, false, none⟩

/-- The slot of a list. -/
def element (id : FieldId) (type : ColumnType) (optional : Bool) : Field :=
  ⟨id, "element", type, optional, none⟩

/-- The key slot of a map, which is never empty. -/
def mapKey (id : FieldId) (type : ColumnType) : Field := ⟨id, "key", type, false, none⟩

/-- The value slot of a map. -/
def mapValue (id : FieldId) (type : ColumnType) (optional : Bool) : Field :=
  ⟨id, "value", type, optional, none⟩

/-- Whether the slot must be filled. -/
def isRequired (f : Field) : Bool := !f.optional

/-- The same slot with another type. -/
def withType (f : Field) (type : ColumnType) : Field := { f with type }

/-- The same slot with a note. -/
def withDoc (f : Field) (doc : String) : Field := { f with doc := some doc }

@[simp] theorem withType_type (f : Field) : f.withType f.type = f := by
  cases f
  rfl

/-- The first of some fields with the given number. -/
def withId? (fields : List Field) (id : FieldId) : Option Field :=
  fields.find? fun f => f.id = id

/-- The first of some fields with the given name. -/
def named? (fields : List Field) (name : String) (case : NameCase) : Option Field :=
  fields.find? fun f => case.key f.name = case.key name

end Field

/-! ## Kinds and parts -/

/-- The four kinds of column type. -/
inductive Kind where
  | primitive
  | struct
  | list
  | map
  deriving DecidableEq

namespace Kind

def text : Kind → String
  | primitive => "primitive"
  | struct => "struct"
  | list => "list"
  | map => "map"

/-- The kind that a word stands for. -/
def ofText? (word : String) : Option Kind :=
  [primitive, struct, list, map].find? fun k => k.text = word

end Kind

namespace ColumnType

def kind : ColumnType → Kind
  | primitive _ => .primitive
  | struct _ => .struct
  | list .. => .list
  | map .. => .map

def isPrimitive (t : ColumnType) : Bool := t.kind = .primitive

def isStruct (t : ColumnType) : Bool := t.kind = .struct

def isList (t : ColumnType) : Bool := t.kind = .list

def isMap (t : ColumnType) : Bool := t.kind = .map

/-- Whether the type has slots of its own, be it none as in the empty struct. -/
def isNested (t : ColumnType) : Bool := !t.isPrimitive

/-- The slots of a type in order: none for a leaf, key before value for a map. -/
def fields : ColumnType → List Field
  | primitive _ => []
  | struct fields => fields
  | list id type optional => [.element id type optional]
  | map keyId key valueId value optional => [.mapKey keyId key, .mapValue valueId value optional]

/-- The fields of a struct; other types have none to be looked up by name. -/
def structFields? : ColumnType → Option (List Field)
  | struct fields => some fields
  | _ => none

/-- A list with another element type in the same slot; other types stay as they are. -/
def withElement (t element : ColumnType) : ColumnType :=
  match t with
  | list id _ optional => list id element optional
  | t => t

/-- A map with other key and value types in the same slots; other types stay as they are. -/
def withSides (t key value : ColumnType) : ColumnType :=
  match t with
  | map keyId _ valueId _ optional => map keyId key valueId value optional
  | t => t

/-- **Induction on types**: a property passes from the types of all fields of a struct to the
struct, from the element type to the list, and from both sides to the map. -/
@[elab_as_elim]
theorem induction {motive : ColumnType → Prop} (primitive : ∀ p, motive (.primitive p))
    (struct : ∀ fs, (∀ f ∈ fs, motive f.type) → motive (.struct fs))
    (list : ∀ id t o, motive t → motive (.list id t o))
    (map : ∀ i k j v o, motive k → motive v → motive (.map i k j v o)) (t : ColumnType) :
    motive t :=
  ColumnType.rec (motive_1 := motive) (motive_2 := fun f => motive f.type)
    (motive_3 := fun fs => ∀ f ∈ fs, motive f.type) primitive struct list map
    (fun _ _ _ _ _ h => h) nofun
    (fun _ _ hf hs _ hg => (List.mem_cons.1 hg).elim (fun e => e ▸ hf) (hs _)) t

end ColumnType

/-- The texts of kinds differ, so a word stands for at most one. -/
theorem Kind.ofText?_eq_some_iff {word : String} {k : Kind} :
    ofText? word = some k ↔ k.text = word := by
  constructor
  · intro h
    simpa using List.find?_some h
  · rintro rfl
    cases k <;> decide

end TableSchema
