import TableSchema.ColumnType

/-!
# Places in a type

A field of a nested type is met on the way down from the top through the slots above it.  A
`Place` is one such field together with its way: which child it is at each level, and each slot
passed, with the role that the slot plays in its parent.  `ColumnType.places` lists all places
of a type from the top down and from left to right.

A **dotted path** names a place by the segments of its way.  The canonical path has a segment
for every slot.  The short path leaves out the slots that are a list's element or a map's value
and hold a struct: the fields of that struct are then named as if they belonged to the list or
the map.
-/

namespace TableSchema

/-- The part a slot plays in its parent. -/
inductive Role where
  | structField
  | listElement
  | mapKey
  | mapValue
  deriving DecidableEq

/-- Whether a short path leaves out a slot of this role when it holds a struct. -/
def Role.elidesStruct : Role → Bool
  | listElement | mapValue => true
  | structField | mapKey => false

/-- A field and the part it plays in its parent. -/
structure Hop where
  role : Role
  field : Field
  deriving DecidableEq

/-- Whether short paths leave the hop out. -/
def Hop.isElided (h : Hop) : Bool := h.role.elidesStruct && h.field.type.isStruct

/-- The slots of a type with their roles, in order. -/
def ColumnType.hops : ColumnType → List Hop
  | .primitive _ => []
  | .struct fields => fields.map fun f => ⟨.structField, f⟩
  | .list id type optional => [⟨.listElement, .element id type optional⟩]
  | .map keyId key valueId value optional =>
    [⟨.mapKey, .mapKey keyId key⟩, ⟨.mapValue, .mapValue valueId value optional⟩]

/-- The hops of a type are its slots. -/
@[simp] theorem ColumnType.map_field_hops (t : ColumnType) : t.hops.map Hop.field = t.fields := by
  cases t <;> simp [hops, fields, Function.comp_def]

/-- A field of a nested type with the way that leads to it. -/
structure Place where
  /-- At each level from the top, which child the way goes through; the last is the field itself. -/
  position : List Nat
  /-- The slots above the field, outermost first. -/
  above : List Hop
  /-- The field and its role. -/
  hop : Hop
  deriving DecidableEq

namespace Place

/-- A slot seen from the type it belongs to. -/
def child (index : Nat) (hop : Hop) : Place := ⟨[index], [], hop⟩

/-- The place as it is seen from one level further up, where its way begins with a child. -/
def below (index : Nat) (hop : Hop) (p : Place) : Place :=
  ⟨index :: p.position, hop :: p.above, p.hop⟩

def field (p : Place) : Field := p.hop.field

def id (p : Place) : FieldId := p.field.id

/-- How many levels down the field is, 1 for a field at the top. -/
def depth (p : Place) : Nat := p.position.length

/-- The whole way, the field included. -/
def way (p : Place) : List Hop := p.above ++ [p.hop]

/-- The way without the hops that short paths leave out. -/
def shortWay (p : Place) : List Hop := p.way.filter fun h => !h.isElided

@[simp] theorem way_child (index : Nat) (hop : Hop) : (child index hop).way = [hop] := rfl

@[simp] theorem way_below (index : Nat) (hop : Hop) (p : Place) :
    (p.below index hop).way = hop :: p.way := rfl

@[simp] theorem field_child (index : Nat) (hop : Hop) : (child index hop).field = hop.field := rfl

@[simp] theorem field_below (index : Nat) (hop : Hop) (p : Place) :
    (p.below index hop).field = p.field := rfl

@[simp] theorem position_child (index : Nat) (hop : Hop) :
    (child index hop).position = [index] := rfl

@[simp] theorem position_below (index : Nat) (hop : Hop) (p : Place) :
    (p.below index hop).position = index :: p.position := rfl

end Place

/-- A slot and the places in its type, given the places in that type. -/
def Hop.places (h : Hop) (index : Nat) (inside : List Place) : List Place :=
  .child index h :: inside.map (Place.below index h)

mutual

/-- All places of a type, a field before the fields below it and these in the order of their
slots. -/
def ColumnType.places : ColumnType → List Place
  | .primitive _ => []
  | .struct fields => Field.placesFrom 0 fields
  | .list id type optional => Hop.places ⟨.listElement, .element id type optional⟩ 0 type.places
  | .map keyId key valueId value optional =>
    Hop.places ⟨.mapKey, .mapKey keyId key⟩ 0 key.places ++
      Hop.places ⟨.mapValue, .mapValue valueId value optional⟩ 1 value.places

/-- The places in and below the fields of a struct, the first of which is child number `index`. -/
def Field.placesFrom (index : Nat) : List Field → List Place
  | [] => []
  | ⟨id, name, type, optional, doc⟩ :: fields =>
    Hop.places ⟨.structField, ⟨id, name, type, optional, doc⟩⟩ index type.places ++
      Field.placesFrom (index + 1) fields

end

theorem Field.placesFrom_cons (index : Nat) (f : Field) (fields : List Field) :
    placesFrom index (f :: fields) =
      Hop.places ⟨.structField, f⟩ index f.type.places ++ placesFrom (index + 1) fields := by
  cases f
  simp [placesFrom]

theorem Field.placesFrom_eq_flatMap (index : Nat) (fields : List Field) :
    placesFrom index fields =
      (fields.zipIdx index).flatMap fun (f, i) => Hop.places ⟨.structField, f⟩ i f.type.places := by
  induction fields generalizing index with
  | nil => simp [placesFrom]
  | cons f fields ih => simp [placesFrom_cons, ih]

/-- **The places of a type, slot by slot**: each slot with its number, then the places in its
type. -/
theorem ColumnType.places_eq_flatMap (t : ColumnType) :
    t.places = t.hops.zipIdx.flatMap fun (h, i) => h.places i h.field.type.places := by
  cases t with
  | struct fields =>
    simp [places, hops, Field.placesFrom_eq_flatMap, List.zipIdx_map, List.flatMap_map]
  | _ => simp [places, hops, Field.element, Field.mapKey, Field.mapValue]

namespace Field

/-- The field that a position leads to from some fields: the first number picks one of them, each
further number one of the slots of the type reached. -/
def at? (fields : List Field) : List Nat → Option Field
  | [] => none
  | [index] => fields[index]?
  | index :: rest => fields[index]?.bind fun f => at? f.type.fields rest

end Field

namespace ColumnType

/-- The field that a position leads to from the top of a struct; from any other type positions lead
nowhere. -/
def fieldAt? (root : ColumnType) (position : List Nat) : Option Field :=
  root.structFields?.bind fun fields => Field.at? fields position

end ColumnType
end TableSchema
