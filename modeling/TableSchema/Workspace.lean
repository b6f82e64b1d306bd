import TableSchema.Lookup

/-!
# A workspace of schemas

A workspace holds schemas under handles.  A handle is a name that is bound to a schema; several
handles can be bound to one schema, which then share all that is remembered of it, and binding a
handle again frees it from its old schema.  A command makes a schema, compares schemas, or puts
a query to one; it is answered with its outcome and with the log of what was done on the way.  A
command that fails binds nothing.
-/

namespace TableSchema

/-- A schema with what is remembered of it. -/
structure Entry where
  schema : Schema
  memo : IndexMemo := {}

/-- Schemas, numbered in the order in which they were made, and the handles bound to them. -/
structure Workspace where
  entries : List Entry := []
  /-- The handles with the numbers of their schemas, the latest binding first. -/
  handles : List (String × Nat) := []

/-- What a workspace can be told to do. -/
inductive Command where
  /-- Make a schema of some fields. -/
  | create (fields : List Field) (schemaId : Option SchemaId)
  /-- Bind one more handle to a schema. -/
  | clone (source : String)
  /-- Make a schema of the same columns under another number. -/
  | rewrap (source : String) (schemaId : Option SchemaId)
  /-- Show a schema. -/
  | inspect (source : String)
  /-- Compare two schemas, their numbers and all their fields. -/
  | compare (left right : String)
  /-- Put a query to a schema. -/
  | ask (source : String) (query : Query)
  deriving DecidableEq

/-- What a command comes to. -/
inductive Result where
  /-- A schema was made, bound once more, or is shown. -/
  | schema (schema : Schema)
  /-- A schema was made from the columns of another one. -/
  | rewrapped (derived : Derived)
  | compared (equal : Bool)
  | answered (answer : Answer)
  deriving DecidableEq

/-- Why a command fails. -/
inductive CommandError where
  /-- No schema is bound to the handle. -/
  | unknownHandle (handle : String)
  /-- The schema does not allow it. -/
  | schema (error : SchemaError)
  deriving DecidableEq

/-- The outcome of a command, with the log of what was done and the number of the schema it was done
to. -/
structure Reply where
  outcome : Except CommandError Result
  /-- The schema that was looked up, if the command is a query. -/
  subject : Option Nat := none
  log : List Event := []

namespace Workspace

/-- The number of the schema that a handle is bound to. -/
def number? (w : Workspace) (handle : String) : Option Nat := w.handles.lookup handle

/-- The schema that a handle is bound to, with its number. -/
def find (w : Workspace) (handle : String) : Except CommandError (Nat × Entry) :=
  match w.number? handle with
  | none => .error (.unknownHandle handle)
  | some number =>
    match w.entries[number]? with
    | none => .error (.unknownHandle handle)
    | some entry => .ok (number, entry)

/-- Binds a handle, if there is one, to the schema with a number. -/
def bind (w : Workspace) (handle : Option String) (number : Nat) : Workspace :=
  match handle with
  | none => w
  | some handle => { w with handles := (handle, number) :: w.handles }

/-- Adds a schema of which nothing is remembered yet, under a handle if there is one. -/
def add (w : Workspace) (handle : Option String) (schema : Schema) : Workspace :=
  bind { w with entries := w.entries ++ [⟨schema, {}⟩] } handle w.entries.length

/-- Changes what is remembered of the schema with a number. -/
def remember (w : Workspace) (number : Nat) (memo : IndexMemo) : Workspace :=
  { w with entries := w.entries.modify number fun entry => { entry with memo } }

/-- Puts a query to the schema with a number.  What the query builds is remembered even if it
fails, and a schema it derives is added. -/
def ask (w : Workspace) (handle : Option String) (number : Nat) (entry : Entry) (query : Query) :
    Reply × Workspace :=
  let (outcome, state) := (entry.schema.look query).runFrom entry.memo
  let w := w.remember number state.memo
  match outcome with
  | .error e => (⟨.error (.schema e), some number, state.log⟩, w)
  | .ok answer =>
    (⟨.ok (.answered answer), some number, state.log⟩,
      match answer with
      | .derived d => w.add handle d.schema
      | _ => w)

/-- Carries out one command.  A schema that it makes is bound to `handle`, if one is given. -/
def step (w : Workspace) (handle : Option String) (command : Command) : Reply × Workspace :=
  match command with
  | .create fields schemaId =>
    let schema : Schema := ⟨schemaId, fields⟩
    ({ outcome := .ok (.schema schema) }, w.add handle schema)
  | .clone source =>
    match w.find source with
    | .error e => ({ outcome := .error e }, w)
    | .ok (number, entry) => ({ outcome := .ok (.schema entry.schema) }, w.bind handle number)
  | .rewrap source schemaId =>
    match w.find source with
    | .error e => ({ outcome := .error e }, w)
    | .ok (_, entry) =>
      let derived := entry.schema.rewrap schemaId
      ({ outcome := .ok (.rewrapped derived) }, w.add handle derived.schema)
  | .inspect source =>
    match w.find source with
    | .error e => ({ outcome := .error e }, w)
    | .ok (_, entry) => ({ outcome := .ok (.schema entry.schema) }, w)
  | .compare left right =>
    match w.find left, w.find right with
    | .ok (_, l), .ok (_, r) => ({ outcome := .ok (.compared (l.schema = r.schema)) }, w)
    | .error e, _ | _, .error e => ({ outcome := .error e }, w)
  | .ask source query =>
    match w.find source with
    | .error e => ({ outcome := .error e }, w)
    | .ok (number, entry) => w.ask handle number entry query

/-- Carries out commands one after the other. -/
def run (w : Workspace) : List (Option String × Command) → List Reply × Workspace
  | [] => ([], w)
  | (handle, command) :: rest =>
    let (reply, w) := w.step handle command
    let (replies, w) := w.run rest
    (reply :: replies, w)

end Workspace
end TableSchema
