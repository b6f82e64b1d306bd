import TableSchema.Place
import TableSchema.SchemaError

/-!
# Looking fields up by path

The index knows every canonical path of a type and every short path that is not also canonical.
Two fields may share a canonical path only if they share their number; of fields that share a
short path the first one has it.  Names can be quoted on their way into a path, for instance
where they contain the dot that joins segments; in a folded index segments are folded after
quoting, and so is what is looked up.

The index is made by a walk.  On its way down it carries a `Trail`, the segments above the slot
that it is at: all of them for canonical paths, those that are spelled out for short ones.  The
paths of the slots go into two tables, which are merged when the walk is done.
-/

namespace TableSchema

/-- How names become segments of paths. -/
structure PathStyle where
  case : NameCase
  /-- What is done to a name before anything else. -/
  quote : String → String := fun name => name

namespace PathStyle

/-- The segment of a path that stands for one hop. -/
def segment (style : PathStyle) (h : Hop) : String := style.case.key (style.quote h.field.name)

/-- The segments of some hops with dots between them. -/
def path (style : PathStyle) (way : List Hop) : String := ".".intercalate (way.map style.segment)

/-- The path with every hop. -/
def canonical (style : PathStyle) (p : Place) : String := style.path p.way

/-- The path without the hops that are left out, empty if that leaves none. -/
def short (style : PathStyle) (p : Place) : String := style.path p.shortWay

/-- One more segment behind those above it, with a dot between if there are any, be they empty or
not. -/
def join (above : List String) (segment : String) : String :=
  if above.isEmpty then segment else ".".intercalate above ++ "." ++ segment

end PathStyle

/-- The segments above a slot, outermost first. -/
structure Trail where
  /-- The segments of all hops above. -/
  canonical : List String
  /-- The segments of those hops above that short paths spell out. -/
  short : List String

namespace Trail

/-- Above the slots of the type that a walk begins with there is nothing. -/
def top : Trail := ⟨[], []⟩

/-- The trail for the slots in the type of a slot. -/
def enter (trail : Trail) (style : PathStyle) (h : Hop) : Trail where
  canonical := trail.canonical ++ [style.segment h]
  short := if h.isElided then trail.short else trail.short ++ [style.segment h]

/-- The canonical path of a slot. -/
def canonicalPath (trail : Trail) (style : PathStyle) (h : Hop) : String :=
  PathStyle.join trail.canonical (style.segment h)

/-- The short path of a slot: that of what holds it if the slot itself is left out. -/
def shortPath (trail : Trail) (style : PathStyle) (h : Hop) : String :=
  if h.isElided then ".".intercalate trail.short
  else PathStyle.join trail.short (style.segment h)

end Trail

/-- The paths of the slots that a walk has been at, each with the field that has it. -/
structure PathTables where
  canonical : List (String × FieldId)
  short : List (String × FieldId)

namespace PathTables

def empty : PathTables := ⟨[], []⟩

/-- Gives a canonical path to a field, unless another field has it. -/
def addCanonical (taken : List (String × FieldId)) (path : String) (id : FieldId) :
    Except SchemaError (List (String × FieldId)) :=
  match taken.lookup path with
  | none => .ok (taken ++ [(path, id)])
  | some existing =>
    if existing = id then .ok taken else .error (.duplicatePath path existing id)

/-- Gives a short path to a field, unless a field has it already. -/
def addShort (taken : List (String × FieldId)) (path : String) (id : FieldId) :
    List (String × FieldId) :=
  if (taken.lookup path).isSome then taken else taken ++ [(path, id)]

/-- Records both paths of a field. -/
def record (tables : PathTables) (canonical short : String) (id : FieldId) :
    Except SchemaError PathTables := do
  let withCanonical ← addCanonical tables.canonical canonical id
  return ⟨withCanonical, addShort tables.short short id⟩

/-- The short paths that no field has for its canonical path. -/
def onlyShort (tables : PathTables) : List (String × FieldId) :=
  tables.short.filter fun entry => (tables.canonical.lookup entry.1).isNone

end PathTables

/-- The walk at a slot: the slot is recorded, then the slots `inside` its type are, under the trail
that leads there. -/
def Hop.recordPaths (h : Hop) (style : PathStyle) (trail : Trail)
    (inside : Trail → PathTables → Except SchemaError PathTables) (tables : PathTables) :
    Except SchemaError PathTables := do
  let recorded ← tables.record (trail.canonicalPath style h) (trail.shortPath style h) h.field.id
  inside (trail.enter style h) recorded

mutual

/-- Records the paths of all slots of a type, a slot before those below it. -/
def ColumnType.recordPaths (style : PathStyle) :
    ColumnType → Trail → PathTables → Except SchemaError PathTables
  | .primitive _, _, tables => .ok tables
  | .struct fields, trail, tables => Field.recordPathsEach style fields trail tables
  | .list id type optional, trail, tables =>
    Hop.recordPaths ⟨.listElement, .element id type optional⟩ style trail
      (type.recordPaths style) tables
  | .map keyId key valueId value optional, trail, tables => do
    let keys ← Hop.recordPaths ⟨.mapKey, .mapKey keyId key⟩ style trail
      (key.recordPaths style) tables
    Hop.recordPaths ⟨.mapValue, .mapValue valueId value optional⟩ style trail
      (value.recordPaths style) keys

/-- Records the paths of the fields of a struct and of the slots below them. -/
def Field.recordPathsEach (style : PathStyle) :
    List Field → Trail → PathTables → Except SchemaError PathTables
  | [], _, tables => .ok tables
  | ⟨id, name, type, optional, doc⟩ :: fields, trail, tables => do
    let first ← Hop.recordPaths ⟨.structField, ⟨id, name, type, optional, doc⟩⟩ style trail
      (type.recordPaths style) tables
    Field.recordPathsEach style fields trail first

end

/-- Fields by their paths. -/
structure PathIndex where
  case : NameCase
  /-- The canonical paths, each once, in the order of the places. -/
  canonical : List (String × FieldId)
  /-- The short paths that are not canonical, each once, in the order of the places. -/
  short : List (String × FieldId)
  deriving DecidableEq

namespace PathIndex

/-- The index of all slots of a type. -/
def build (style : PathStyle) (root : ColumnType) : Except SchemaError PathIndex := do
  let tables ← root.recordPaths style .top .empty
  return ⟨style.case, tables.canonical, tables.onlyShort⟩

/-- The field that a path leads to; a folded index folds the path first. -/
def get? (index : PathIndex) (path : String) : Option FieldId :=
  (index.canonical ++ index.short).lookup (index.case.key path)

/-- The first canonical path that leads to a field. -/
def path? (index : PathIndex) (id : FieldId) : Option String :=
  (index.canonical.find? fun entry => entry.2 = id).map Prod.fst

/-- How many paths the index knows. -/
def size (index : PathIndex) : Nat := index.canonical.length + index.short.length

end PathIndex
end TableSchema
