import TableSchema.Proofs.Remembered
import TableSchema.Workspace

/-!
# Runs with and without a memory

A workspace remembers of each schema what building its indexes came to.  It is faithful if what it
remembers is what building them anew would come to (`Workspace.Faithful`).  Every command keeps it
faithful (`Workspace.Faithful.step`): a query remembers only outcomes of builds of the schema that
it is put to, and a schema that is made, wrapped again or derived starts with nothing remembered.

`Workspace.afresh` is a workspace of the same schemas under the same handles of which nothing is
remembered.  A command has the same outcome on both and leaves the same schemas under the same
handles (`Workspace.Faithful.step_afresh`), so in a whole run every reply is what it would be if
each schema were made anew before every command (`Workspace.run_faithful`).
-/

namespace TableSchema

/-- The same schema of which nothing is remembered. -/
def Entry.fresh (entry : Entry) : Entry := ⟨entry.schema, {}⟩

theorem Entry.faithful_fresh (entry : Entry) : entry.fresh.memo.Faithful entry.fresh.schema :=
  IndexMemo.faithful_empty entry.schema

namespace Workspace

/-- **A workspace that remembers nothing but what building the indexes comes to.** -/
def Faithful (w : Workspace) : Prop := ∀ entry ∈ w.entries, entry.memo.Faithful entry.schema

/-- The same schemas under the same handles, of which nothing is remembered. -/
def afresh (w : Workspace) : Workspace := { w with entries := w.entries.map Entry.fresh }

/-- Carries out commands one after the other, each on schemas of which nothing is remembered. -/
def runAfresh (w : Workspace) : List (Option String × Command) → List Reply × Workspace
  | [] => ([], w)
  | (handle, command) :: rest =>
    let (reply, w) := w.afresh.step handle command
    let (replies, w) := w.runAfresh rest
    (reply :: replies, w)

/-- What a command that puts a query comes to, given the answer. -/
def outcomeOf : Except SchemaError Answer → Except CommandError Result
  | .error e => .error (.schema e)
  | .ok answer => .ok (.answered answer)

/-- A workspace with the schema that an answer derives, if it does. -/
def addDerived (w : Workspace) (handle : Option String) : Except SchemaError Answer → Workspace
  | .ok (.derived d) => w.add handle d.schema
  | _ => w

/-! ## What is remembered -/

section Remember
variable {w : Workspace} {handle : Option String} {number : Nat} {entry : Entry}

theorem getElem?_of_find {source : String} (h : w.find source = .ok (number, entry)) :
    w.entries[number]? = some entry := by
  rw [find] at h
  split at h
  · cases h
  · split at h
    · cases h
    · cases h
      assumption

theorem entries_bind (w : Workspace) (handle : Option String) (number : Nat) :
    (w.bind handle number).entries = w.entries := by
  cases handle <;> rfl

theorem entries_add (w : Workspace) (handle : Option String) (schema : Schema) :
    (w.add handle schema).entries = w.entries ++ [⟨schema, {}⟩] :=
  entries_bind _ handle _

theorem Faithful.bind (h : w.Faithful) (handle : Option String) (number : Nat) :
    (w.bind handle number).Faithful := by
  rw [Faithful, entries_bind]
  exact h

/-- A schema that is added starts with nothing remembered. -/
theorem Faithful.add (h : w.Faithful) (handle : Option String) (schema : Schema) :
    (w.add handle schema).Faithful := by
  rw [Faithful, entries_add]
  intro entry hentry
  rcases List.mem_append.1 hentry with hold | hnew
  · exact h entry hold
  · rw [List.mem_singleton.1 hnew]
    exact IndexMemo.faithful_empty schema

theorem Faithful.addDerived (h : w.Faithful) (handle : Option String)
    (answer : Except SchemaError Answer) : (w.addDerived handle answer).Faithful := by
  unfold Workspace.addDerived
  split
  · exact h.add handle _
  · exact h

/-- What is remembered of one schema leaves the others alone. -/
theorem Faithful.remember (h : w.Faithful) (hentry : w.entries[number]? = some entry)
    {memo : IndexMemo} (hmemo : memo.Faithful entry.schema) :
    (w.remember number memo).Faithful := by
  intro changed hchanged
  obtain ⟨i, hi⟩ := List.getElem?_of_mem hchanged
  rw [Workspace.remember, List.getElem?_modify] at hi
  obtain ⟨old, hold, hi⟩ := Option.map_eq_some_iff.1 hi
  by_cases hnumber : number = i
  · rw [← hnumber, hentry] at hold
    cases hold
    rw [if_pos hnumber] at hi
    rw [← hi]
    exact hmemo
  · rw [if_neg hnumber] at hi
    rw [← hi]
    exact h old (List.mem_of_getElem? hold)

/-- **What putting a query to a schema does**: the lookup starts from what is remembered of the
schema, its log is the log of the reply, and what it leaves is remembered even if it fails. -/
theorem ask_eq (w : Workspace) (handle : Option String) (number : Nat) (entry : Entry)
    (query : Query) {answer : Except SchemaError Answer} {state : LookupState}
    (hrun : (entry.schema.look query).runFrom entry.memo = (answer, state)) :
    w.ask handle number entry query = (⟨outcomeOf answer, some number, state.log⟩,
      (w.remember number state.memo).addDerived handle answer) := by
  rw [ask, hrun]
  cases answer with
  | error e => rfl
  | ok answer => cases answer <;> rfl

/-- The outcome of a query is the plain answer, and what is remembered of the schema afterwards is
what its builds come to. -/
theorem exists_ask_eq (w : Workspace) (handle : Option String) (number : Nat)
    (hentry : entry.memo.Faithful entry.schema) (query : Query) :
    ∃ memo : IndexMemo, memo.Faithful entry.schema ∧
      (w.ask handle number entry query).1.outcome = outcomeOf (entry.schema.answer query) ∧
      (w.ask handle number entry query).2 =
        (w.remember number memo).addDerived handle (entry.schema.answer query) := by
  obtain ⟨state, hrun, hstate⟩ := entry.schema.finds_look query ⟨entry.memo, []⟩ hentry
  refine ⟨state.memo, hstate, ?_⟩
  rw [w.ask_eq handle number entry query hrun]
  exact ⟨rfl, rfl⟩

/-- **Every command keeps the workspace faithful.** -/
theorem Faithful.step (h : w.Faithful) (handle : Option String) (command : Command) :
    (w.step handle command).2.Faithful := by
  cases command with
  | create fields schemaId => exact h.add handle _
  | clone source =>
    rw [Workspace.step]
    cases w.find source with
    | error e => exact h
    | ok found => exact h.bind handle found.1
  | rewrap source schemaId =>
    rw [Workspace.step]
    cases w.find source with
    | error e => exact h
    | ok found => exact h.add handle _
  | inspect source =>
    rw [Workspace.step]
    cases w.find source <;> exact h
  | compare left right =>
    rw [Workspace.step]
    cases w.find left <;> cases w.find right <;> exact h
  | ask source query =>
    rw [Workspace.step]
    cases hfind : w.find source with
    | error e => exact h
    | ok found =>
      have hentry := getElem?_of_find hfind
      obtain ⟨memo, hmemo, -, hw⟩ := w.exists_ask_eq handle found.1
        (h found.2 (List.mem_of_getElem? hentry)) query
      change (w.ask handle found.1 found.2 query).2.Faithful
      rw [hw]
      exact (h.remember hentry hmemo).addDerived handle _

/-- **Every run keeps the workspace faithful.** -/
theorem Faithful.run (h : w.Faithful) (commands : List (Option String × Command)) :
    (w.run commands).2.Faithful := by
  induction commands generalizing w with
  | nil => exact h
  | cons command commands ih => exact ih (h.step command.1 command.2)

end Remember

/-! ## What is forgotten -/

section Forget
variable (w : Workspace) (handle : Option String)

theorem faithful_empty : Faithful {} := fun _ h => absurd h List.not_mem_nil

theorem afresh_afresh : w.afresh.afresh = w.afresh := by
  rw [afresh, afresh, List.map_map]
  rfl

theorem getElem?_afresh (i : Nat) : w.afresh.entries[i]? = w.entries[i]?.map Entry.fresh :=
  List.getElem?_map

/-- A handle is bound to the same schema whether or not something is remembered of it. -/
theorem find_afresh (source : String) :
    w.afresh.find source = (w.find source).map fun found => (found.1, found.2.fresh) := by
  have hnumber : w.afresh.number? source = w.number? source := rfl
  rw [find, find, hnumber]
  cases w.number? source with
  | none => rfl
  | some number =>
    simp only [getElem?_afresh]
    cases w.entries[number]? <;> rfl

theorem afresh_bind (number : Nat) :
    (w.bind handle number).afresh = w.afresh.bind handle number := by
  cases handle <;> rfl

theorem afresh_add (schema : Schema) :
    (w.add handle schema).afresh = w.afresh.add handle schema := by
  rw [add, add, afresh_bind, afresh, afresh, List.map_append, List.length_map]
  rfl

/-- What is remembered of one schema is forgotten with all the rest. -/
theorem afresh_remember (number : Nat) (memo : IndexMemo) :
    (w.remember number memo).afresh = w.afresh := by
  have hentries : (w.remember number memo).afresh.entries = w.afresh.entries := by
    refine List.ext_getElem? fun i => ?_
    rw [getElem?_afresh, getElem?_afresh, remember, List.getElem?_modify]
    cases w.entries[i]? with
    | none => rfl
    | some entry => by_cases hi : number = i <;> simp [hi, Entry.fresh]
  exact congrArg (fun entries => { w with entries }) hentries

theorem afresh_addDerived (answer : Except SchemaError Answer) :
    (w.addDerived handle answer).afresh = w.afresh.addDerived handle answer := by
  unfold addDerived
  split
  · exact w.afresh_add handle _
  · rfl

end Forget

/-! ## Runs -/

section Runs
variable {w : Workspace}

/-- **A command cannot tell what is remembered**: its outcome, and the schemas and handles that it
leaves, are those on a workspace that remembers nothing. -/
theorem Faithful.step_afresh (h : w.Faithful) (handle : Option String) (command : Command) :
    (w.step handle command).1.outcome = (w.afresh.step handle command).1.outcome ∧
      (w.step handle command).2.afresh = (w.afresh.step handle command).2.afresh := by
  have hadd (schema : Schema) :
      (w.add handle schema).afresh = (w.afresh.add handle schema).afresh := by
    rw [afresh_add, afresh_add, afresh_afresh]
  cases command with
  | create fields schemaId => exact ⟨rfl, hadd _⟩
  | clone source =>
    rw [Workspace.step, Workspace.step, find_afresh]
    cases w.find source with
    | error e => exact ⟨rfl, w.afresh_afresh.symm⟩
    | ok found =>
      refine ⟨rfl, ?_⟩
      change (w.bind handle found.1).afresh = (w.afresh.bind handle found.1).afresh
      rw [afresh_bind, afresh_bind, afresh_afresh]
  | rewrap source schemaId =>
    rw [Workspace.step, Workspace.step, find_afresh]
    cases w.find source with
    | error e => exact ⟨rfl, w.afresh_afresh.symm⟩
    | ok found => exact ⟨rfl, hadd _⟩
  | inspect source =>
    rw [Workspace.step, Workspace.step, find_afresh]
    cases w.find source <;> exact ⟨rfl, w.afresh_afresh.symm⟩
  | compare left right =>
    rw [Workspace.step, Workspace.step, find_afresh, find_afresh]
    cases w.find left <;> cases w.find right <;> exact ⟨rfl, w.afresh_afresh.symm⟩
  | ask source query =>
    rw [Workspace.step, Workspace.step, find_afresh]
    cases hfind : w.find source with
    | error e => exact ⟨rfl, w.afresh_afresh.symm⟩
    | ok found =>
      have hentry := h found.2 (List.mem_of_getElem? (getElem?_of_find hfind))
      obtain ⟨memo, -, hout, hw⟩ := w.exists_ask_eq handle found.1 hentry query
      obtain ⟨memo', -, hout', hw'⟩ := w.afresh.exists_ask_eq handle found.1
        found.2.faithful_fresh query
      refine ⟨hout.trans hout'.symm, ?_⟩
      change (w.ask handle found.1 found.2 query).2.afresh =
        (w.afresh.ask handle found.1 found.2.fresh query).2.afresh
      rw [hw, hw', afresh_addDerived, afresh_addDerived, afresh_remember, afresh_remember,
        afresh_afresh]
      rfl

/-- A run has the same outcomes as one on another workspace of the same schemas and handles that
forgets everything before each command. -/
theorem Faithful.outcomes_run (h : w.Faithful) {other : Workspace} (hsame : w.afresh = other.afresh)
    (commands : List (Option String × Command)) :
    (w.run commands).1.map Reply.outcome = (other.runAfresh commands).1.map Reply.outcome := by
  induction commands generalizing w other with
  | nil => rfl
  | cons command commands ih =>
    obtain ⟨houtcome, hafresh⟩ := h.step_afresh command.1 command.2
    rw [hsame] at houtcome hafresh
    exact List.cons_eq_cons.2 ⟨houtcome, ih (h.step command.1 command.2) hafresh⟩

/-- The workspace that some commands lead to from an empty one. -/
def reached (commands : List (Option String × Command)) : Workspace :=
  (({} : Workspace).run commands).2

/-- The workspace in which a schema has just been made anew and bound to a handle. -/
def justMade (handle : String) (schema : Schema) : Workspace :=
  (({} : Workspace).step (some handle) (.create schema.fields schema.schemaId)).2

theorem faithful_justMade (handle : String) (schema : Schema) : (justMade handle schema).Faithful :=
  faithful_empty.step _ _

theorem find_justMade (handle : String) (schema : Schema) :
    (justMade handle schema).find handle = .ok (0, ⟨schema, {}⟩) := by
  have hnumber : (justMade handle schema).number? handle = some 0 := List.lookup_cons_self
  rw [find, hnumber]
  rfl

/-- **A query is answered as the plain function of the schema answers it.** -/
theorem Faithful.outcome_ask (h : w.Faithful) {source : String} {number : Nat} {entry : Entry}
    (hfind : w.find source = .ok (number, entry)) (handle : Option String) (query : Query) :
    (w.step handle (.ask source query)).1.outcome = outcomeOf (entry.schema.answer query) := by
  have hentry := h entry (List.mem_of_getElem? (getElem?_of_find hfind))
  obtain ⟨-, -, hout, -⟩ := w.exists_ask_eq handle number hentry query
  rw [Workspace.step, hfind]
  exact hout

/-- **What is remembered cannot be told from what is built anew.**  After any commands, every index
that is remembered of a schema, or the failure to build it, is what building it from that schema
comes to.  All replies so far are those of a run that forgets everything before each command, and so
is the next one.  A query has the outcome that it has for the same columns and number made anew,
which is the plain answer. -/
theorem run_faithful (commands : List (Option String × Command)) :
    (∀ entry ∈ (reached commands).entries, entry.memo.Faithful entry.schema) ∧
    (run {} commands).1.map Reply.outcome = (runAfresh {} commands).1.map Reply.outcome ∧
    (∀ handle command, ((reached commands).step handle command).1.outcome =
      ((reached commands).afresh.step handle command).1.outcome) ∧
    ∀ source number entry, (reached commands).find source = .ok (number, entry) →
      ∀ handle query,
        ((reached commands).step handle (.ask source query)).1.outcome =
          ((justMade source entry.schema).step handle (.ask source query)).1.outcome ∧
        ((reached commands).step handle (.ask source query)).1.outcome =
          outcomeOf (entry.schema.answer query) := by
  have hreached : (reached commands).Faithful := faithful_empty.run commands
  refine ⟨hreached, faithful_empty.outcomes_run rfl commands, fun handle command => ?_,
    fun source number entry hfind handle query => ?_⟩
  · exact (hreached.step_afresh handle command).1
  · have hout := hreached.outcome_ask hfind handle query
    have hmade := (faithful_justMade source entry.schema).outcome_ask
      (find_justMade source entry.schema) handle query
    exact ⟨hout.trans hmade.symm, hout⟩

/-- A schema of two columns with one number, which is cloned before a lookup fails on it. -/
def failedClone : List (Option String × Command) :=
  [(some "a", .create [.nullable 1 "x" (.primitive .int), .nullable 1 "y" (.primitive .int)] none),
    (some "b", .clone "a"), (none, .ask "a" (.fieldWithId 1))]

/-- The failure is remembered of the clone, which fails as if it were made anew. -/
theorem run_faithful_failedClone :
    ∃ entry, (reached failedClone).find "b" = .ok (0, entry) ∧
      entry.memo.ids = some (.error (.duplicateId 1)) ∧
      ((reached failedClone).step none (.ask "b" .highestId)).1.outcome =
        ((justMade "b" entry.schema).step none (.ask "b" .highestId)).1.outcome ∧
      ((reached failedClone).step none (.ask "b" .highestId)).1.outcome =
        .error (.schema (.duplicateId 1)) := by
  have hfind : (reached failedClone).find "b" = .ok _ := rfl
  obtain ⟨-, -, -, hask⟩ := run_faithful failedClone
  exact ⟨_, hfind, rfl, hask "b" _ _ hfind none .highestId⟩

end Runs

end Workspace
end TableSchema
