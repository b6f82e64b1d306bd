import TableSchema.Proofs.Remembered

/-!
# Which indexes a lookup consults

A query consults some indexes of the schema in some order (`Schema.consults`).  A path needs the
index of paths, and the index of numbers only if it leads somewhere; a selection needs them path by
path up to the first failure.  Which indexes these are does not depend on what is remembered.

What is remembered decides which of them are built.  A lookup builds those that it consults and that
were not known before, each once and when it first consults it, and afterwards it knows all that it
has consulted, be it that the index could not be built (`Schema.Recalls`).  Lookups one after the
other do so for their indexes one after the other (`Recalls.trans`), from which it follows for every
query (`Schema.consults_look`).
-/

namespace TableSchema

/-! ## First occurrences -/

section Firsts
variable {α β : Type} [BEq α] [BEq β]

/-- Of some things those that are not known before, each once, in the order in which they come. -/
def firsts (known : α → Bool) (as : List α) : List α := (as.filter fun a => !known a).eraseDups

@[simp] theorem firsts_nil (known : α → Bool) : firsts known [] = [] := rfl

@[simp] theorem firsts_singleton (known : α → Bool) (a : α) :
    firsts known [a] = if known a then [] else [a] := by
  cases h : known a <;> simp [firsts, h, List.eraseDups_cons]

/-- If nothing is known they are all of them, each once. -/
theorem firsts_false (as : List α) : firsts (fun _ => false) as = as.eraseDups :=
  congrArg List.eraseDups (List.filter_eq_self.2 fun _ _ => rfl)

variable [LawfulBEq α] [LawfulBEq β]

/-- **First some things, then others**: of the others those that are neither known nor among the
first. -/
theorem firsts_append {known known' : α → Bool} {as : List α}
    (h : ∀ a, known' a = (known a || as.contains a)) (bs : List α) :
    firsts known (as ++ bs) = firsts known as ++ firsts known' bs := by
  rw [firsts, List.filter_append, List.eraseDups_append]
  have hrest : (bs.filter fun b => !known b).removeAll (as.filter fun a => !known a) =
      bs.filter fun b => !known' b := by
    rw [List.removeAll, List.filter_filter]
    refine List.filter_congr fun b _ => ?_
    rw [h]
    cases hb : known b <;> simp [hb]
  rw [hrest]
  rfl

/-- Nothing comes twice. -/
theorem nodup_eraseDups (as : List α) : as.eraseDups.Nodup := by
  match as with
  | [] => exact List.nodup_nil
  | a :: as =>
    rw [List.eraseDups_cons]
    refine List.nodup_cons.2 ⟨fun hmem => ?_, nodup_eraseDups _⟩
    have hne := (List.mem_filter.1 (List.mem_eraseDups.1 hmem)).2
    simp at hne
termination_by as.length
decreasing_by exact Nat.lt_succ_of_le (List.length_filter_le ..)

theorem eraseDups_map {f : α → β} (hf : Function.Injective f) (as : List α) :
    (as.map f).eraseDups = as.eraseDups.map f := by
  match as with
  | [] => rfl
  | a :: as =>
    have hsame : (fun b => !f b == f a) = fun b => !b == a := by
      funext b
      rw [Bool.eq_iff_iff]
      simp [hf.eq_iff]
    rw [List.map_cons, List.eraseDups_cons, List.eraseDups_cons, List.map_cons, List.filter_map,
      Function.comp_def, hsame, eraseDups_map hf]
termination_by as.length
decreasing_by exact Nat.lt_succ_of_le (List.length_filter_le ..)

/-- Things under other names come for the first time when they come for the first time. -/
theorem firsts_map {f : α → β} (hf : Function.Injective f) (known : β → Bool) (as : List α) :
    firsts known (as.map f) = (firsts (fun a => known (f a)) as).map f := by
  rw [firsts, List.filter_map, eraseDups_map hf]
  rfl

end Firsts

/-! ## What is consulted -/

/-- Whether the outcome of building an index is remembered. -/
def IndexMemo.knows (memo : IndexMemo) : IndexName → Bool
  | .ids => memo.ids.isSome
  | .paths case => (memo.paths case).isSome

namespace Schema
variable (s : Schema)

/-- What the log says when an index of the schema is built, or cannot be built. -/
def buildEvent : IndexName → Event
  | .ids => .ofIdBuild s.idIndex
  | .paths case => .ofPathBuild case (s.pathIndex case)

/-- **The indexes that a path needs**: that of the paths, and if it can be built and has the path,
that of the numbers. -/
def consultsPath (path : String) (case : NameCase) : List IndexName :=
  .paths case ::
    match s.pathIndex case with
    | .ok index => if (index.get? path).isSome then [.ids] else []
    | .error _ => []

/-- The indexes that some paths need one after the other, up to the first that fails. -/
def consultsPaths (case : NameCase) : List String → List IndexName
  | [] => []
  | path :: paths =>
    s.consultsPath path case ++
      match s.fieldAtPath path case with
      | .ok _ => consultsPaths case paths
      | .error _ => []

/-- **The indexes that a query consults**, in order. -/
def consults : Query → List IndexName
  | .fieldWithId _ | .highestId => [.ids]
  | .fieldAtPath path case => s.consultsPath path case
  | .pathOf _ => [.paths .asWritten]
  | .select paths case => if wildcard ∈ paths then [] else s.consultsPaths case paths
  | .project _ => []

@[simp] theorem index?_buildEvent (index : IndexName) :
    (s.buildEvent index).index? = some index := by
  cases index <;> simp [buildEvent]

/-! ## What is built -/

/-- **What consulting some indexes does**, one after the other.  Afterwards they are known, and else
just what was known before.  Those that were not known are built, each once and in order, and every
new line of the log about a build tells how the build of that index of the schema comes out. -/
structure Recalls (indexes : List IndexName) (before after : LookupState) : Prop where
  knows : ∀ index, after.memo.knows index = (before.memo.knows index || indexes.contains index)
  builds : after.log.filterMap Event.index? =
    before.log.filterMap Event.index? ++ firsts before.memo.knows indexes
  events : ∀ e ∈ after.log,
    e ∈ before.log ∨ ∀ index, e.index? = some index → e = s.buildEvent index

variable {s} {state before between after : LookupState} {indexes indexes' : List IndexName}

theorem recalls_nil (s : Schema) (state : LookupState) : s.Recalls [] state state where
  knows index := by simp
  builds := by simp
  events e he := .inl he

/-- **First some indexes, then others.** -/
theorem Recalls.trans (h : s.Recalls indexes before between)
    (h' : s.Recalls indexes' between after) : s.Recalls (indexes ++ indexes') before after where
  knows index := by
    rw [h'.knows, h.knows, List.contains_append, Bool.or_assoc]
  builds := by
    rw [h'.builds, h.builds, List.append_assoc, firsts_append h.knows]
  events e he := by
    rcases h'.events e he with hbetween | hevent
    · exact h.events e hbetween
    · exact .inr hevent

/-- A known index is not built again, not even after a failure. -/
theorem recalls_of_knows {index : IndexName} (h : state.memo.knows index = true) :
    s.Recalls [index] state state where
  knows other := by
    by_cases hother : other = index
    · simp [hother, h]
    · simp [hother]
  builds := by simp [h]
  events e he := .inl he

/-- An index that is not known is built, and known from then on. -/
theorem recalls_of_builds (index : IndexName) {memo : IndexMemo}
    (hbefore : before.memo.knows index = false)
    (hafter : ∀ other, memo.knows other = (before.memo.knows other || other = index)) :
    s.Recalls [index] before ⟨memo, before.log ++ [s.buildEvent index]⟩ where
  knows other := by simp [hafter]
  builds := by simp [hbefore]
  events e he := by
    rcases List.mem_append.1 he with hold | hnew
    · exact .inl hold
    · refine .inr fun other hother => ?_
      rw [List.mem_singleton.1 hnew, index?_buildEvent, Option.some.injEq] at hother
      rw [List.mem_singleton.1 hnew, hother]

end Schema

namespace IndexMemo
variable (memo : IndexMemo)

theorem knows_empty (index : IndexName) : knows {} index = false := by
  cases index with
  | ids => rfl
  | paths case => cases case <;> rfl

theorem knows_setIds (outcome : Except SchemaError IdIndex) (index : IndexName) :
    (memo.setIds outcome).knows index = (memo.knows index || index = .ids) := by
  cases index <;> simp [knows]

theorem knows_setPaths (outcome : Except SchemaError PathIndex) (case : NameCase)
    (index : IndexName) :
    (memo.setPaths outcome case).knows index = (memo.knows index || index = .paths case) := by
  cases index with
  | ids => simp [knows]
  | paths other => by_cases hother : other = case <;> simp [knows, paths_setPaths, hother]

end IndexMemo

/-! ## Lookups -/

namespace Lookup
variable {α β : Type} {s : Schema} {indexes indexes' : List IndexName}

/-- **A lookup that consults some indexes**, whatever of the schema is remembered. -/
def Consults (s : Schema) (look : Lookup α) (indexes : List IndexName) : Prop :=
  ∀ state, state.memo.Faithful s → s.Recalls indexes state (look.runOn state).2

theorem consults_pure (a : α) : Consults s (pure a) [] := fun state _ => s.recalls_nil state

theorem consults_liftM (outcome : Except SchemaError α) : Consults s (liftM outcome) [] :=
  fun state _ => s.recalls_nil state

/-- A line about no build is no matter. -/
theorem consults_note {event : Event} (hevent : event.index? = none) :
    Consults s (note event) [] := by
  intro state _
  refine ⟨fun index => by simp, ?_, fun e he => ?_⟩
  · simp [hevent]
  · rcases List.mem_append.1 he with hold | hnew
    · exact .inl hold
    · refine .inr fun index hindex => ?_
      rw [List.mem_singleton.1 hnew, hevent] at hindex
      cases hindex

/-- **One lookup after another**: the second consults its indexes unless the first one fails. -/
theorem Consults.bind {look : Lookup α} {next : α → Lookup β} {x : Except SchemaError α}
    (hlook : Consults s look indexes) (hfinds : Finds s look x)
    (hnext : ∀ a, x = .ok a → Consults s (next a) indexes')
    (herror : ∀ e, x = .error e → indexes' = []) :
    Consults s (look >>= next) (indexes ++ indexes') := by
  intro state h
  obtain ⟨state', hrun, h'⟩ := hfinds state h
  have hfirst := hlook state h
  rw [hrun] at hfirst
  rw [runOn_bind, hrun]
  cases x with
  | error e =>
    rw [herror e rfl, List.append_nil]
    exact hfirst
  | ok a => exact hfirst.trans (hnext a rfl state' h')

/-- A lookup that is followed by one that consults nothing. -/
theorem Consults.bind_nil {look : Lookup α} {next : α → Lookup β} {x : Except SchemaError α}
    (hlook : Consults s look indexes) (hfinds : Finds s look x)
    (hnext : ∀ a, Consults s (next a) []) : Consults s (look >>= next) indexes := by
  rw [← List.append_nil indexes]
  exact hlook.bind hfinds (fun a _ => hnext a) fun _ _ => rfl

theorem Consults.map {look : Lookup α} {x : Except SchemaError α}
    (hlook : Consults s look indexes) (hfinds : Finds s look x) (g : α → β) :
    Consults s (g <$> look) indexes := by
  rw [map_eq_pure_bind]
  exact hlook.bind_nil hfinds fun a => consults_pure (g a)

end Lookup

namespace Schema
open Lookup
variable (s : Schema)

theorem consults_recallIds : Consults s s.recallIds [.ids] := by
  intro state _
  rw [runOn_recallIds]
  cases hids : state.memo.ids with
  | some outcome => exact recalls_of_knows (by simp [IndexMemo.knows, hids])
  | none =>
    exact recalls_of_builds .ids (by simp [IndexMemo.knows, hids])
      (state.memo.knows_setIds s.idIndex)

theorem consults_recallPaths (case : NameCase) :
    Consults s (s.recallPaths case) [.paths case] := by
  intro state _
  rw [runOn_recallPaths]
  cases hpaths : state.memo.paths case with
  | some outcome => exact recalls_of_knows (by simp [IndexMemo.knows, hpaths])
  | none =>
    exact recalls_of_builds (.paths case) (by simp [IndexMemo.knows, hpaths])
      (state.memo.knows_setPaths (s.pathIndex case) case)

theorem consults_lookId (id : FieldId) : Consults s (s.lookId id) [.ids] :=
  s.consults_recallIds.bind_nil s.finds_recallIds fun index => consults_pure (index.find? s.root id)

/-- The index of numbers is consulted only for a path that leads somewhere. -/
theorem consults_lookPath (path : String) (case : NameCase) :
    Consults s (s.lookPath path case) (s.consultsPath path case) := by
  refine Consults.bind (s.consults_recallPaths case) (s.finds_recallPaths case)
    (fun index hindex => ?_) fun e herror => ?_
  · rw [hindex]
    cases hget : index.get? path with
    | none =>
      simp only [hget, Option.isSome_none, Bool.false_eq_true, if_false]
      exact consults_pure none
    | some id =>
      simp only [hget, Option.isSome_some, if_true]
      exact s.consults_lookId id
  · rw [herror]

theorem consults_lookSelected (path : String) (case : NameCase) :
    Consults s (s.lookSelected path case) (s.consultsPath path case) := by
  refine (s.consults_lookPath path case).bind_nil (s.finds_lookPath path case) fun field => ?_
  cases field with
  | none =>
    exact (consults_note rfl).bind_nil (finds_note (.pathUnmatched path))
      fun _ => consults_pure none
  | some field => exact consults_pure (some field.id)

/-- **Paths are looked up one after the other**, up to the first that fails. -/
theorem consults_mapM_lookSelected (paths : List String) (case : NameCase) :
    Consults s (paths.mapM fun path => s.lookSelected path case) (s.consultsPaths case paths) := by
  induction paths with
  | nil => exact consults_pure []
  | cons path paths ih =>
    rw [List.mapM_cons]
    refine (s.consults_lookSelected path case).bind (s.finds_lookSelected path case)
      (fun field hfield => ?_) fun e herror => ?_
    · obtain ⟨found, hfound, -⟩ := bind_eq_ok_iff.1 hfield
      rw [hfound]
      exact ih.bind_nil (Finds.mapM (fun path => s.finds_lookSelected path case) paths)
        fun fields => consults_pure (field :: fields)
    · cases hat : s.fieldAtPath path case with
      | error e' => rfl
      | ok found =>
        rw [hat] at herror
        cases herror

theorem consults_lookSelection (paths : List String) (case : NameCase) :
    Consults s (s.lookSelection paths case) (s.consults (.select paths case)) := by
  rw [lookSelection, consults]
  by_cases hwild : wildcard ∈ paths
  · rw [if_pos hwild, if_pos hwild]
    exact consults_pure (Derived.mk s .whole)
  · rw [if_neg hwild, if_neg hwild]
    exact (s.consults_mapM_lookSelected paths case).bind_nil
      (Finds.mapM (fun path => s.finds_lookSelected path case) paths)
      fun found => consults_liftM (s.prune ⟨found.filterMap id, .subtree⟩)

/-- **Every query consults its indexes**, whatever of the schema is remembered. -/
theorem consults_look (query : Query) : Consults s (s.look query) (s.consults query) := by
  cases query with
  | fieldWithId id => exact (s.consults_lookId id).map (s.finds_lookId id) Answer.field
  | fieldAtPath path case =>
    exact (s.consults_lookPath path case).map (s.finds_lookPath path case) Answer.field
  | pathOf id =>
    exact (s.consults_recallPaths .asWritten).bind_nil (s.finds_recallPaths .asWritten)
      fun index => consults_pure (Answer.path (index.path? id))
  | highestId =>
    exact s.consults_recallIds.bind_nil s.finds_recallIds
      fun index => consults_pure (Answer.id index.highest?)
  | select paths case =>
    exact (s.consults_lookSelection paths case).map (s.finds_lookSelection paths case)
      Answer.derived
  | project ids =>
    exact (consults_liftM (s.project ids)).bind_nil (finds_liftM (s.project ids))
      fun d => consults_pure (Answer.derived d)

end Schema
end TableSchema
