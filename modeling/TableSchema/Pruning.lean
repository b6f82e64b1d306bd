import TableSchema.Cut
import TableSchema.SchemaError

/-!
# Pruning a type down to a selection

A selection names fields by their numbers and says how much of a selected field is kept.  With
the extent `subtree` the field stays as it is, and nothing below it is looked at.  With the
extent `exact` a selected leaf stays, a selected struct stays with those of its fields that are
kept themselves, if need be with none, and a list or a map cannot be selected at all: its slots
are to be selected instead.  Above everything kept, the fields that lead to it are kept too.

The two slots of a map are kept or dropped together.  A selected leaf on either side counts for
that side; any other type there counts by what is kept below it.  Selecting both numbers of a
map with the extent `subtree` keeps it as it is.
-/

namespace TableSchema

/-- How much of a selected field is kept. -/
inductive Extent where
  /-- The field with everything below it. -/
  | subtree
  /-- The field alone, and below it only what is selected too. -/
  | exact
  deriving DecidableEq

/-- Which fields are asked for, and how much of each. -/
structure Selection where
  ids : List FieldId
  extent : Extent
  deriving DecidableEq

namespace Selection

/-- Whether a number is asked for. -/
def has (sel : Selection) (id : FieldId) : Bool := id ∈ sel.ids

/-- Whether a field with this number is kept with everything below it. -/
def takesWhole (sel : Selection) (id : FieldId) : Bool := sel.has id && sel.extent = .subtree

/-- What is kept of a field of a struct or of a list's element, given what is kept below it. -/
def keepField (sel : Selection) (f : Field) (below : Except SchemaError (Option Cut)) :
    Except SchemaError (Option Cut) :=
  if sel.takesWhole f.id then .ok (some .whole)
  else do
    let kept ← below
    if sel.has f.id then
      match f.type.kind with
      | .primitive => return some .whole
      | .struct => return some (kept.getD .bare)
      | .list | .map => throw (.listOrMapSelected f.id f.name f.type)
    else return kept

/-- What is kept of one side of a map, given what is kept below it. -/
def keepSide (sel : Selection) (f : Field) (below : Except SchemaError (Option Cut)) :
    Except SchemaError (Option Cut) := do
  let kept ← below
  return if sel.has f.id && f.type.isPrimitive then some .whole else kept

/-- What is kept of a map, given what is kept of its sides. -/
def keepMap (sel : Selection) (keyId valueId : FieldId)
    (key value : Except SchemaError (Option Cut)) : Except SchemaError (Option Cut) :=
  if sel.takesWhole keyId && sel.takesWhole valueId then .ok (some .whole)
  else do
    let key ← key
    let value ← value
    if key.isSome = value.isSome then return Cut.assemble [key, value]
    else throw (.partialMap keyId valueId)

end Selection

mutual

/-- **What a selection keeps of a type**, or the first reason why it cannot be kept, the reasons
below a node coming before its own and those further left before those further right. -/
def ColumnType.prune (sel : Selection) : ColumnType → Except SchemaError (Option Cut)
  | .primitive _ => .ok none
  | .struct fields => return Cut.assemble (← Field.pruneEach sel fields)
  | .list id type optional =>
    return Cut.assemble [← sel.keepField (.element id type optional) (type.prune sel)]
  | .map keyId key valueId value optional =>
    sel.keepMap keyId valueId (sel.keepSide (.mapKey keyId key) (key.prune sel))
      (sel.keepSide (.mapValue valueId value optional) (value.prune sel))

/-- What a selection keeps of each of the fields of a struct. -/
def Field.pruneEach (sel : Selection) : List Field → Except SchemaError (List (Option Cut))
  | [] => .ok []
  | ⟨id, name, type, optional, doc⟩ :: fields => do
    let kept ← sel.keepField ⟨id, name, type, optional, doc⟩ (type.prune sel)
    return kept :: (← Field.pruneEach sel fields)

end

theorem Field.pruneEach_cons (sel : Selection) (f : Field) (fields : List Field) :
    pruneEach sel (f :: fields) = (do
      let kept ← sel.keepField f (f.type.prune sel)
      return kept :: (← pruneEach sel fields)) := by
  cases f
  simp [pruneEach]

end TableSchema
