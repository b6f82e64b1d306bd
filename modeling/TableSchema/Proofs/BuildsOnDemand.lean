import Mathlib.Data.Prod.Basic
import TableSchema.Proofs.Consultation
import TableSchema.Proofs.FaithfulRuns

/-!
# Indexes are built on demand and once

The only commands that consult an index are queries, and they consult indexes of the schema that
their handle is bound to (`Workspace.consults`).  A schema has one number for all its clones, so a
consultation is a number together with the name of an index, and what is known in a workspace are
such pairs too (`Workspace.knows`).

A command builds those of the indexes it consults that were not known, and afterwards these are
known too (`Faithful.builds_step`, `Faithful.knows_step`).  The commands of a run do so one after
the other, so in a run from an empty workspace each consulted index is built by the first command
that consults it, however the build comes out, and by no other (`Workspace.run_builds`).
-/

namespace TableSchema

/-- The builds that the log of a reply tells of, each with the number of the schema. -/
def Reply.builds (reply : Reply) : List (Nat × IndexName) :=
  match reply.subject with
  | some number => (reply.log.filterMap Event.index?).map (number, ·)
  | none => []

namespace Workspace

/-- Whether the outcome of building an index of the schema with a number is remembered. -/
def knows (w : Workspace) (built : Nat × IndexName) : Bool :=
  w.entries[built.1]?.any fun entry => entry.memo.knows built.2

/-- **The indexes that a command consults**, in order: those of its query to the schema that the
handle is bound to.  Other commands, and queries under unknown handles, consult none. -/
def consults (w : Workspace) : Command → List (Nat × IndexName)
  | .ask source query =>
    match w.find source with
    | .ok (number, entry) => (entry.schema.consults query).map (number, ·)
    | .error _ => []
  | _ => []

/-- The indexes that some commands consult, carried out one after the other. -/
def consultations (w : Workspace) : List (Option String × Command) → List (Nat × IndexName)
  | [] => []
  | (handle, command) :: rest =>
    w.consults command ++ (w.step handle command).2.consultations rest

/-! ## What is known -/

section Knows
variable {w : Workspace} {number : Nat} {entry : Entry}

theorem knows_of_getElem? (h : w.entries[number]? = some entry) (index : IndexName) :
    w.knows (number, index) = entry.memo.knows index := by
  rw [knows, h]
  rfl

theorem knows_congr {w' : Workspace} (h : w'.entries = w.entries) : w'.knows = w.knows := by
  funext built
  rw [knows, knows, h]

@[simp] theorem knows_bind (w : Workspace) (handle : Option String) (number : Nat) :
    (w.bind handle number).knows = w.knows :=
  knows_congr (w.entries_bind handle number)

/-- **Nothing is known of a schema that is added.** -/
@[simp] theorem knows_add (w : Workspace) (handle : Option String) (schema : Schema) :
    (w.add handle schema).knows = w.knows := by
  funext ⟨number, index⟩
  rw [knows, knows, entries_add]
  rcases Nat.lt_trichotomy number w.entries.length with hold | rfl | hnone
  · rw [List.getElem?_append_left hold]
  · rw [List.getElem?_concat_length, List.getElem?_eq_none (Nat.le_refl _)]
    exact IndexMemo.knows_empty index
  · rw [List.getElem?_eq_none (by simp; omega), List.getElem?_eq_none (Nat.le_of_lt hnone)]

@[simp] theorem knows_addDerived (w : Workspace) (handle : Option String)
    (answer : Except SchemaError Answer) : (w.addDerived handle answer).knows = w.knows := by
  unfold addDerived
  split
  · exact w.knows_add handle _
  · rfl

/-- What is remembered of one schema leaves what is known of the others. -/
theorem knows_remember (hentry : w.entries[number]? = some entry) (memo : IndexMemo)
    (built : Nat × IndexName) : (w.remember number memo).knows built =
      if built.1 = number then memo.knows built.2 else w.knows built := by
  rw [knows, remember, List.getElem?_modify]
  by_cases hsame : built.1 = number
  · rw [if_pos hsame, hsame, hentry]
    simp
  · rw [if_neg hsame]
    simp [knows, Ne.symm hsame]

/-- Nothing is known of a schema that is not there. -/
theorem knows_eq_false (hnumber : w.entries.length ≤ number) (index : IndexName) :
    w.knows (number, index) = false := by
  rw [knows, List.getElem?_eq_none hnumber]
  rfl

theorem knows_empty : knows {} = fun _ => false := rfl

end Knows

/-! ## One command -/

section Step
variable {w : Workspace} {number : Nat} {entry : Entry}

/-- **What a command can do**: put a query to a schema, or else consult nothing, log nothing and
leave what is known. -/
theorem step_cases (w : Workspace) (handle : Option String) (command : Command) :
    (∃ source query number entry, command = .ask source query ∧
      w.find source = .ok (number, entry) ∧
      w.step handle command = w.ask handle number entry query ∧
      w.consults command = (entry.schema.consults query).map (number, ·)) ∨
    (w.consults command = [] ∧ (w.step handle command).1.log = [] ∧
      (w.step handle command).2.knows = w.knows) := by
  cases command with
  | create fields schemaId => exact .inr ⟨rfl, rfl, w.knows_add handle _⟩
  | clone source =>
    rw [step]
    cases w.find source with
    | error e => exact .inr ⟨rfl, rfl, rfl⟩
    | ok found => exact .inr ⟨rfl, rfl, w.knows_bind handle found.1⟩
  | rewrap source schemaId =>
    rw [step]
    cases w.find source with
    | error e => exact .inr ⟨rfl, rfl, rfl⟩
    | ok found => exact .inr ⟨rfl, rfl, w.knows_add handle _⟩
  | inspect source =>
    rw [step]
    cases w.find source <;> exact .inr ⟨rfl, rfl, rfl⟩
  | compare left right =>
    rw [step]
    cases w.find left <;> cases w.find right <;> exact .inr ⟨rfl, rfl, rfl⟩
  | ask source query =>
    rw [step, consults]
    cases hfind : w.find source with
    | error e => exact .inr ⟨rfl, rfl, rfl⟩
    | ok found => exact .inl ⟨source, query, found.1, found.2, rfl, hfind, rfl, rfl⟩

/-- **What a query to a schema does to its indexes**: the reply has the log of consulting them, and
what is known of the schema afterwards is what is known after that. -/
theorem exists_ask_recalls (h : w.Faithful) (hentry : w.entries[number]? = some entry)
    (handle : Option String) (query : Query) :
    ∃ state, entry.schema.Recalls (entry.schema.consults query) ⟨entry.memo, []⟩ state ∧
      (w.ask handle number entry query).1.subject = some number ∧
      (w.ask handle number entry query).1.log = state.log ∧
      (w.ask handle number entry query).2.knows = (w.remember number state.memo).knows := by
  have hmemo := h entry (List.mem_of_getElem? hentry)
  refine ⟨_, entry.schema.consults_look query ⟨entry.memo, []⟩ hmemo, ?_⟩
  rw [w.ask_eq handle number entry query rfl]
  exact ⟨rfl, rfl, knows_addDerived ..⟩

/-- **After a command what was known is known, and what it consulted.** -/
theorem Faithful.knows_step (h : w.Faithful) (handle : Option String) (command : Command)
    (built : Nat × IndexName) : (w.step handle command).2.knows built =
      (w.knows built || (w.consults command).contains built) := by
  rcases w.step_cases handle command with
    ⟨source, query, number, entry, -, hfind, hstep, hconsults⟩ | ⟨hconsults, -, hknows⟩
  · have hentry := getElem?_of_find hfind
    obtain ⟨state, hrecalls, -, -, hknows⟩ := exists_ask_recalls h hentry handle query
    obtain ⟨other, index⟩ := built
    rw [hstep, hknows, knows_remember hentry, hconsults]
    by_cases hsame : other = number
    · subst hsame
      rw [if_pos rfl, hrecalls.knows, knows_of_getElem? hentry]
      simp
    · rw [if_neg hsame]
      simp [Ne.symm hsame]
  · rw [hknows, hconsults, List.contains_nil, Bool.or_false]

/-- **A command builds what it consults and was not known**, in this order and each once. -/
theorem Faithful.builds_step (h : w.Faithful) (handle : Option String) (command : Command) :
    (w.step handle command).1.builds = firsts w.knows (w.consults command) := by
  rcases w.step_cases handle command with
    ⟨source, query, number, entry, -, hfind, hstep, hconsults⟩ | ⟨hconsults, hlog, -⟩
  · have hentry := getElem?_of_find hfind
    obtain ⟨state, hrecalls, hsubject, hlog, -⟩ := exists_ask_recalls h hentry handle query
    have hknows : (fun index => w.knows (number, index)) = entry.memo.knows :=
      funext (knows_of_getElem? hentry)
    rw [hstep, hconsults, Reply.builds, hsubject, hlog, firsts_map (Prod.mk_right_injective number),
      hknows]
    exact congrArg _ hrecalls.builds
  · rw [hconsults, firsts_nil, Reply.builds, hlog]
    cases (w.step handle command).1.subject <;> rfl

/-- **The log of a command is about the schema that its query is put to**, and each line about a
build tells how the build of that index of the schema comes out. -/
theorem Faithful.log_step (h : w.Faithful) (handle : Option String) (command : Command) :
    (w.step handle command).1.log = [] ∨
      ∃ source query number entry, command = .ask source query ∧
        w.find source = .ok (number, entry) ∧
        (w.step handle command).1.subject = some number ∧
        ∀ e ∈ (w.step handle command).1.log, ∀ index, e.index? = some index →
          e = entry.schema.buildEvent index := by
  rcases w.step_cases handle command with
    ⟨source, query, number, entry, hcommand, hfind, hstep, -⟩ | ⟨-, hlog, -⟩
  · have hentry := getElem?_of_find hfind
    obtain ⟨state, hrecalls, hsubject, hlog, -⟩ := exists_ask_recalls h hentry handle query
    rw [hstep, hlog]
    refine .inr ⟨source, query, number, entry, hcommand, hfind, hsubject, fun e he => ?_⟩
    exact (hrecalls.events e he).resolve_left List.not_mem_nil
  · exact .inl hlog

/-- A command consults indexes only of schemas that are there. -/
theorem lt_length_of_mem_consults {command : Command} {built : Nat × IndexName}
    (h : built ∈ w.consults command) : built.1 < w.entries.length := by
  rcases w.step_cases none command with
    ⟨source, query, number, entry, -, hfind, -, hconsults⟩ | ⟨hconsults, -⟩
  · rw [hconsults] at h
    obtain ⟨index, -, rfl⟩ := List.mem_map.1 h
    exact (List.getElem?_eq_some_iff.1 (getElem?_of_find hfind)).1
  · rw [hconsults] at h
    cases h

/-- **Nothing is known of a schema that a command makes.** -/
theorem Faithful.knows_step_of_length_le (h : w.Faithful) (handle : Option String)
    (command : Command) (hnumber : w.entries.length ≤ number) (index : IndexName) :
    (w.step handle command).2.knows (number, index) = false := by
  rw [h.knows_step, knows_eq_false hnumber, Bool.false_or, Bool.eq_false_iff]
  intro hmem
  have hlt := lt_length_of_mem_consults (List.contains_iff_mem.1 hmem)
  exact absurd hnumber (Nat.not_le_of_lt hlt)

/-- A clone is bound to the schema itself, with all that is remembered of it. -/
theorem find_step_clone {source : String} (hfind : w.find source = .ok (number, entry))
    (handle : String) :
    (w.step (some handle) (.clone source)).2.find handle = .ok (number, entry) := by
  have hentry := getElem?_of_find hfind
  have hnumber : (w.bind (some handle) number).number? handle = some number :=
    List.lookup_cons_self
  rw [step, hfind]
  change (w.bind (some handle) number).find handle = _
  simp only [find, hnumber, entries_bind, hentry]

end Step

/-! ## Runs -/

section Runs
variable {w : Workspace}

/-- **After a run what was known is known, and what it consulted.** -/
theorem Faithful.knows_run (h : w.Faithful) (commands : List (Option String × Command))
    (built : Nat × IndexName) : (w.run commands).2.knows built =
      (w.knows built || (w.consultations commands).contains built) := by
  induction commands generalizing w with
  | nil => rw [consultations, List.contains_nil, Bool.or_false, Workspace.run]
  | cons command commands ih =>
    have hrest := ih (h.step command.1 command.2)
    rw [h.knows_step, Bool.or_assoc, ← List.contains_append] at hrest
    exact hrest

/-- **A run builds what it consults and was not known**, in this order and each once. -/
theorem Faithful.builds_run (h : w.Faithful) (commands : List (Option String × Command)) :
    (w.run commands).1.flatMap Reply.builds = firsts w.knows (w.consultations commands) := by
  induction commands generalizing w with
  | nil => rfl
  | cons command commands ih =>
    have hrest := ih (h.step command.1 command.2)
    rw [consultations, firsts_append (h.knows_step command.1 command.2), ← hrest,
      ← h.builds_step command.1 command.2]
    rfl

end Runs

end Workspace
end TableSchema
