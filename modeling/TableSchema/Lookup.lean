import TableSchema.Event
import TableSchema.Schema

/-!
# Lookups that remember their indexes

An index of a schema is built when it is first needed, and what comes of it is remembered, an
index as well as a failure.  A `Lookup` is a computation on what is remembered of one schema;
besides its answer it leaves the log of what it did.

`Schema.answer` says what the answer to a query is, and `Schema.look` finds it with the help of
what is remembered.
-/

namespace TableSchema

/-- What is remembered of a schema: for each index the outcome of building it, if that was tried. -/
structure IndexMemo where
  ids : Option (Except SchemaError IdIndex) := none
  pathsAsWritten : Option (Except SchemaError PathIndex) := none
  pathsFolded : Option (Except SchemaError PathIndex) := none

namespace IndexMemo

/-- The remembered outcome for the path index of a case. -/
def paths (memo : IndexMemo) : NameCase → Option (Except SchemaError PathIndex)
  | .asWritten => memo.pathsAsWritten
  | .folded => memo.pathsFolded

/-- The memo with the outcome of a build of the id index. -/
def setIds (memo : IndexMemo) (outcome : Except SchemaError IdIndex) : IndexMemo :=
  { memo with ids := some outcome }

/-- The memo with the outcome of a build of the path index of a case. -/
def setPaths (memo : IndexMemo) (outcome : Except SchemaError PathIndex) : NameCase → IndexMemo
  | .asWritten => { memo with pathsAsWritten := some outcome }
  | .folded => { memo with pathsFolded := some outcome }

@[simp] theorem ids_setIds (memo : IndexMemo) (outcome : Except SchemaError IdIndex) :
    (memo.setIds outcome).ids = some outcome := rfl

@[simp] theorem paths_setIds (memo : IndexMemo) (outcome : Except SchemaError IdIndex)
    (case : NameCase) : (memo.setIds outcome).paths case = memo.paths case := by
  cases case <;> rfl

@[simp] theorem ids_setPaths (memo : IndexMemo) (outcome : Except SchemaError PathIndex)
    (case : NameCase) : (memo.setPaths outcome case).ids = memo.ids := by
  cases case <;> rfl

/-- A build of the path index of one case leaves what is remembered for the other. -/
theorem paths_setPaths (memo : IndexMemo) (outcome : Except SchemaError PathIndex)
    (case other : NameCase) :
    (memo.setPaths outcome case).paths other =
      if other = case then some outcome else memo.paths other := by
  cases case <;> cases other <;> rfl

end IndexMemo

/-- What a lookup works on. -/
structure LookupState where
  memo : IndexMemo
  /-- The events so far, the first one first. -/
  log : List Event

/-- A computation on what is remembered of one schema.  A failure keeps what was remembered and
logged before it. -/
abbrev Lookup (α : Type) := ExceptT SchemaError (StateM LookupState) α

namespace Lookup

/-- Adds an event to the log. -/
def note (event : Event) : Lookup Unit := modify fun s => { s with log := s.log ++ [event] }

/-- What becomes of a lookup from one state: its answer or failure, and the state it leaves. -/
def runOn {α : Type} (look : Lookup α) (state : LookupState) : Except SchemaError α × LookupState :=
  look.run.run state

/-- Runs a lookup from a memo, with an empty log. -/
def runFrom {α : Type} (look : Lookup α) (memo : IndexMemo) : Except SchemaError α × LookupState :=
  look.runOn ⟨memo, []⟩

@[simp] theorem runOn_pure {α : Type} (a : α) (state : LookupState) :
    runOn (pure a : Lookup α) state = (.ok a, state) := rfl

/-- **One lookup after another**: the second starts where the first one ended, unless that
failed. -/
theorem runOn_bind {α β : Type} (look : Lookup α) (next : α → Lookup β) (state : LookupState) :
    (look >>= next).runOn state =
      match look.runOn state with
      | (.ok a, state) => (next a).runOn state
      | (.error e, state) => (.error e, state) := by
  simp only [runOn, bind, ExceptT.bind, ExceptT.run, ExceptT.mk, StateT.run, StateT.bind]
  rcases look state with ⟨_ | _, _⟩ <;> rfl

@[simp] theorem runOn_note (event : Event) (state : LookupState) :
    (note event).runOn state = (.ok (), ⟨state.memo, state.log ++ [event]⟩) := rfl

/-- A plain outcome in the course of a lookup changes nothing. -/
@[simp] theorem runOn_liftM {α : Type} (outcome : Except SchemaError α) (state : LookupState) :
    runOn (liftM outcome : Lookup α) state = (outcome, state) := rfl

end Lookup

/-- What can be asked of a schema with the help of its indexes, or pruned out of it. -/
inductive Query where
  | fieldWithId (id : FieldId)
  | fieldAtPath (path : String) (case : NameCase)
  | pathOf (id : FieldId)
  | highestId
  | select (paths : List String) (case : NameCase)
  | project (ids : List FieldId)
  deriving DecidableEq

/-- The answer to a query. -/
inductive Answer where
  | field (field : Option Field)
  | path (path : Option String)
  | id (id : Option FieldId)
  | derived (derived : Derived)
  deriving DecidableEq

namespace Schema

/-- The answer to a query, with every index built for the purpose. -/
def answer (s : Schema) : Query → Except SchemaError Answer
  | .fieldWithId id => .field <$> s.fieldWithId id
  | .fieldAtPath path case => .field <$> s.fieldAtPath path case
  | .pathOf id => .path <$> s.pathOf id
  | .highestId => .id <$> s.highestId
  | .select paths case => .derived <$> s.select paths case
  | .project ids => .derived <$> s.project ids

/-- The id index, remembered or built and then remembered. -/
def recallIds (s : Schema) : Lookup IdIndex := ExceptT.mk fun state =>
  match state.memo.ids with
  | some outcome => (outcome, state)
  | none =>
    (s.idIndex, ⟨state.memo.setIds s.idIndex, state.log ++ [.ofIdBuild s.idIndex]⟩)

/-- The path index of a case, remembered or built and then remembered. -/
def recallPaths (s : Schema) (case : NameCase) : Lookup PathIndex := ExceptT.mk fun state =>
  match state.memo.paths case with
  | some outcome => (outcome, state)
  | none =>
    let outcome := s.pathIndex case
    (outcome, ⟨state.memo.setPaths outcome case, state.log ++ [.ofPathBuild case outcome]⟩)

/-- The field with a number. -/
def lookId (s : Schema) (id : FieldId) : Lookup (Option Field) := do
  return (← s.recallIds).find? s.root id

/-- The field that a path leads to.  The id index is needed only if the path leads somewhere. -/
def lookPath (s : Schema) (path : String) (case : NameCase) : Lookup (Option Field) := do
  match (← s.recallPaths case).get? path with
  | none => return none
  | some id => s.lookId id

/-- The number of the field that a path of a selection leads to, with a note in the log if there
is no such field. -/
def lookSelected (s : Schema) (path : String) (case : NameCase) : Lookup (Option FieldId) := do
  match ← s.lookPath path case with
  | none =>
    Lookup.note (.pathUnmatched path)
    return none
  | some field => return some field.id

/-- What some paths select, looked up one after the other. -/
def lookSelection (s : Schema) (paths : List String) (case : NameCase) : Lookup Derived := do
  if wildcard ∈ paths then return ⟨s, .whole⟩
  let found ← paths.mapM fun path => s.lookSelected path case
  s.prune ⟨found.filterMap id, .subtree⟩

/-- The answer to a query, with the help of what is remembered. -/
def look (s : Schema) : Query → Lookup Answer
  | .fieldWithId id => .field <$> s.lookId id
  | .fieldAtPath path case => .field <$> s.lookPath path case
  | .pathOf id => do return .path ((← s.recallPaths .asWritten).path? id)
  | .highestId => do return .id (← s.recallIds).highest?
  | .select paths case => .derived <$> s.lookSelection paths case
  | .project ids => do return .derived (← s.project ids)

theorem runOn_recallIds (s : Schema) (state : LookupState) :
    s.recallIds.runOn state =
      match state.memo.ids with
      | some outcome => (outcome, state)
      | none => (s.idIndex, ⟨state.memo.setIds s.idIndex, state.log ++ [.ofIdBuild s.idIndex]⟩) :=
  rfl

theorem runOn_recallPaths (s : Schema) (case : NameCase) (state : LookupState) :
    (s.recallPaths case).runOn state =
      match state.memo.paths case with
      | some outcome => (outcome, state)
      | none =>
        (s.pathIndex case,
          ⟨state.memo.setPaths (s.pathIndex case) case,
            state.log ++ [.ofPathBuild case (s.pathIndex case)]⟩) :=
  rfl

end Schema
end TableSchema
