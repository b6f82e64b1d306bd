import TableSchema.IdIndex
import TableSchema.PathIndex
import TableSchema.Pruning

/-!
# Schemas

The columns of a table, as the fields of one struct, with a number that tells the schemas of a
table apart.  Any fields make a schema: whether their numbers and names clash is found out by
the first lookup that needs an index of them.  The operations here build the index they need
each time anew; `TableSchema.Lookup` is the same interface with the indexes remembered.

A schema is narrowed in two ways.  `Schema.select` takes paths and keeps the fields they lead to
with everything below.  `Schema.project` takes numbers and keeps exactly those fields.  Both
give a `Derived` schema, which also knows what part of its source it shares.
-/

namespace TableSchema

/-- The columns of a table. -/
structure Schema where
  schemaId : Option SchemaId
  /-- The columns in order. -/
  fields : List Field
  deriving DecidableEq

/-- A schema made from another one, with the part of the other one's struct that was kept. -/
structure Derived where
  schema : Schema
  cut : Cut
  deriving DecidableEq

namespace Schema

/-- The struct of all columns. -/
def root (s : Schema) : ColumnType := .struct s.fields

/-- The schema whose struct is `root`. -/
def ofRoot (root : ColumnType) (schemaId : Option SchemaId) : Except SchemaError Schema :=
  match root with
  | .struct fields => .ok ⟨schemaId, fields⟩
  | found => .error (.rootNotStruct found)

@[simp] theorem ofRoot_struct (fields : List Field) (schemaId : Option SchemaId) :
    ofRoot (.struct fields) schemaId = .ok ⟨schemaId, fields⟩ := rfl

/-- A schema of the same columns under another number, with a struct of its own over the types it
shares with the source. -/
def rewrap (s : Schema) (schemaId : Option SchemaId) : Derived :=
  ⟨⟨schemaId, s.fields⟩, .part (s.fields.map fun _ => some .whole)⟩

/-- The schema written out, one column a line. -/
def text (s : Schema) : String := Field.block "schema" (s.fields.map Field.text)

instance : ToString Schema := ⟨text⟩

/-! ## Lookup -/

def idIndex (s : Schema) : Except SchemaError IdIndex := IdIndex.build s.root

def pathIndex (s : Schema) (case : NameCase) : Except SchemaError PathIndex :=
  PathIndex.build { case } s.root

/-- The field with a number, wherever it stands. -/
def fieldWithId (s : Schema) (id : FieldId) : Except SchemaError (Option Field) := do
  return (← s.idIndex).find? s.root id

/-- The field that a canonical or a short path leads to. -/
def fieldAtPath (s : Schema) (path : String) (case : NameCase) :
    Except SchemaError (Option Field) := do
  match (← s.pathIndex case).get? path with
  | none => return none
  | some id => s.fieldWithId id

/-- The canonical path of the field with a number. -/
def pathOf (s : Schema) (id : FieldId) : Except SchemaError (Option String) := do
  return (← s.pathIndex .asWritten).path? id

/-- The greatest number of any field. -/
def highestId (s : Schema) : Except SchemaError (Option FieldId) := do
  return (← s.idIndex).highest?

/-! ## Narrowing -/

/-- What a selection keeps of a schema; if that is nothing, a schema without columns. -/
def prune (s : Schema) (sel : Selection) : Except SchemaError Derived := do
  match ← s.root.prune sel with
  | none => return ⟨⟨s.schemaId, []⟩, .bare⟩
  | some cut => return ⟨← ofRoot (s.root.restrict cut) s.schemaId, cut⟩

/-- The path that stands for the whole schema. -/
def wildcard : String := "*"

/-- The numbers of the fields that some paths lead to; paths that lead nowhere are passed over. -/
def idsAtPaths (s : Schema) (paths : List String) (case : NameCase) :
    Except SchemaError (List FieldId) := do
  let found ← paths.mapM fun path => s.fieldAtPath path case
  return found.filterMap fun field => field.map Field.id

/-- Keeps the fields that some paths lead to, each with everything below it. -/
def select (s : Schema) (paths : List String) (case : NameCase) : Except SchemaError Derived := do
  if wildcard ∈ paths then return ⟨s, .whole⟩
  s.prune ⟨← s.idsAtPaths paths case, .subtree⟩

/-- Keeps the fields with some numbers, a struct with only those of its fields that are asked
for. -/
def project (s : Schema) (ids : List FieldId) : Except SchemaError Derived := s.prune ⟨ids, .exact⟩

end Schema

/-- Where the nodes of a schema derived from `source` come from; see `ColumnType.origin`. -/
def Derived.origin (d : Derived) (source : Schema) : List (Option Nat) := source.root.origin 0 d.cut

end TableSchema
