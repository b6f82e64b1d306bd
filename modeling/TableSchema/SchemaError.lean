import TableSchema.TypeText

/-!
# What can go wrong with a schema

There are two classes of failure: the schema itself breaks a rule, or a request asks for what no
schema can give.  Each failure has a code that stays the same however its message is worded.
-/

namespace TableSchema

/-- On whose side a failure lies. -/
inductive ErrorClass where
  /-- The numbers or the names of the schema clash. -/
  | invalidSchema
  /-- The request cannot be met by any schema. -/
  | invalidArgument
  deriving DecidableEq

def ErrorClass.text : ErrorClass → String
  | invalidSchema => "invalid schema"
  | invalidArgument => "invalid argument"

/-- A failure, with what caused it. -/
inductive SchemaError where
  /-- Two fields have the number `id`. -/
  | duplicateId (id : FieldId)
  /-- Two fields with different numbers have the same canonical path. -/
  | duplicatePath (path : String) (existing conflicting : FieldId)
  /-- What was kept of a schema is not a struct. -/
  | rootNotStruct (found : ColumnType)
  /-- A list or a map was asked for by its own number. -/
  | listOrMapSelected (id : FieldId) (name : String) (type : ColumnType)
  /-- Something was asked for in the keys of a map but not in its values, or the reverse. -/
  | partialMap (key value : FieldId)
  deriving DecidableEq

namespace SchemaError

def errorClass : SchemaError → ErrorClass
  | duplicateId _ | duplicatePath .. | rootNotStruct _ => .invalidSchema
  | listOrMapSelected .. | partialMap .. => .invalidArgument

/-- The code of the failure, which does not depend on the wording of its message. -/
def code : SchemaError → String
  | duplicateId _ => "SCHEMA_001"
  | duplicatePath .. => "SCHEMA_002"
  | rootNotStruct _ => "SCHEMA_003"
  | listOrMapSelected .. => "PROJECT_001"
  | partialMap .. => "PROJECT_002"

/-- The message for the reader. -/
def message : SchemaError → String
  | duplicateId id => "invalid schema: duplicate field id " ++ id.text
  | duplicatePath path existing conflicting =>
    "invalid schema: multiple fields for name " ++ path ++ ": " ++ existing.text ++ " and " ++
      conflicting.text
  | rootNotStruct found => "invalid schema: projection must produce a struct, got " ++ found.text
  | listOrMapSelected id name type =>
    "cannot explicitly project List or Map types, " ++ id.text ++ ":" ++ name ++ " of type " ++
      type.text ++ " was selected"
  | partialMap key value =>
    "cannot project a map with only key or only value, key " ++ key.text ++ " and value " ++
      value.text

end SchemaError
end TableSchema
