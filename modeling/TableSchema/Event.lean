import TableSchema.SchemaError
import TableSchema.IdIndex
import TableSchema.PathIndex

/-!
# The log of lookups

Looking something up in a schema can leave lines in a log: that an index was built and how much it
holds, that it could not be built, and that a path in a selection leads nowhere.  An event says what
happened; `Event.line` is how the log shows it.
-/

namespace TableSchema

/-- The indexes of a schema. -/
inductive IndexName where
  | ids
  | paths (case : NameCase)
  deriving DecidableEq

/-- Something that is worth a line in the log. -/
inductive Event where
  /-- The id index was built and holds so many fields. -/
  | idIndexBuilt (fields : Nat)
  /-- A path index was built and holds so many canonical and so many further short paths. -/
  | pathIndexBuilt (case : NameCase) (canonical short : Nat)
  /-- An index could not be built. -/
  | buildFailed (index : IndexName) (error : SchemaError)
  /-- A path of a selection leads nowhere. -/
  | pathUnmatched (path : String)
  deriving DecidableEq

namespace Event

/-- What the log says of a build of the id index. -/
def ofIdBuild : Except SchemaError IdIndex → Event
  | .ok index => idIndexBuilt index.size
  | .error e => buildFailed .ids e

/-- What the log says of a build of a path index. -/
def ofPathBuild (case : NameCase) : Except SchemaError PathIndex → Event
  | .ok index => pathIndexBuilt case index.canonical.length index.short.length
  | .error e => buildFailed (.paths case) e

/-- The index whose build an event reports. -/
def index? : Event → Option IndexName
  | idIndexBuilt _ => some .ids
  | pathIndexBuilt case _ _ => some (.paths case)
  | buildFailed index _ => some index
  | pathUnmatched _ => none

/-- The word for a case in the log. -/
def caseWord : NameCase → String
  | .asWritten => "Sensitive"
  | .folded => "Insensitive"

/-- The line in the log: how grave it is, what happened, and the particulars. -/
def line : Event → String
  | idIndexBuilt fields => "DEBUG built field id index fields=" ++ toString fields
  | pathIndexBuilt case canonical short =>
    "DEBUG built field name index case=" ++ caseWord case ++ " canonical=" ++ toString canonical ++
      " short=" ++ toString short
  | buildFailed _ e =>
    "WARN failed to build schema index code=" ++ e.code ++ " err=" ++ e.message
  | pathUnmatched path => "DEBUG selected name matches no field name=" ++ path

@[simp] theorem index?_ofIdBuild (outcome : Except SchemaError IdIndex) :
    (ofIdBuild outcome).index? = some .ids := by
  cases outcome <;> rfl

@[simp] theorem index?_ofPathBuild (case : NameCase) (outcome : Except SchemaError PathIndex) :
    (ofPathBuild case outcome).index? = some (.paths case) := by
  cases outcome <;> rfl

end Event
end TableSchema
