import TableSchema.Lookup
import TableSchema.Proofs.Outcome

/-!
# What is remembered makes no difference

A memo is faithful to a schema if every outcome it holds is that of building the index from the
schema anew (`IndexMemo.Faithful`).  A lookup finds an outcome if it ends with it from every state
whose memo is faithful, and leaves a faithful memo behind (`Lookup.Finds`).  Every query finds its
plain answer (`Schema.finds_look`), so what is proved of the plain functions of a schema holds of
the lookups too.
-/

namespace TableSchema

/-- **A memo that holds nothing but what building the indexes of a schema comes to.** -/
structure IndexMemo.Faithful (memo : IndexMemo) (s : Schema) : Prop where
  ids : ∀ outcome, memo.ids = some outcome → outcome = s.idIndex
  paths : ∀ case outcome, memo.paths case = some outcome → outcome = s.pathIndex case

namespace IndexMemo
variable {s : Schema} {memo : IndexMemo}

theorem faithful_empty (s : Schema) : Faithful {} s where
  ids _ h := by cases h
  paths case _ h := by cases case <;> cases h

theorem Faithful.setIds (h : memo.Faithful s) : (memo.setIds s.idIndex).Faithful s where
  ids _ hids := (Option.some.inj hids).symm
  paths case outcome hpaths := h.paths case outcome ((paths_setIds ..).symm.trans hpaths)

theorem Faithful.setPaths (h : memo.Faithful s) (case : NameCase) :
    (memo.setPaths (s.pathIndex case) case).Faithful s where
  ids outcome hids := h.ids outcome ((ids_setPaths ..).symm.trans hids)
  paths other outcome hpaths := by
    rw [paths_setPaths] at hpaths
    split at hpaths
    · rename_i hcase
      rw [hcase]
      exact (Option.some.inj hpaths).symm
    · exact h.paths other outcome hpaths

end IndexMemo

namespace Lookup
variable {α β : Type} {s : Schema}

/-- **A lookup that finds an outcome**, whatever of the schema is remembered. -/
def Finds (s : Schema) (look : Lookup α) (outcome : Except SchemaError α) : Prop :=
  ∀ state, state.memo.Faithful s →
    ∃ state', look.runOn state = (outcome, state') ∧ state'.memo.Faithful s

theorem finds_pure (a : α) : Finds s (pure a) (pure a) := fun state h => ⟨state, rfl, h⟩

/-- A plain outcome in the course of a lookup is found. -/
theorem finds_liftM (outcome : Except SchemaError α) : Finds s (liftM outcome) outcome :=
  fun state h => ⟨state, rfl, h⟩

theorem finds_note (event : Event) : Finds s (note event) (pure ()) :=
  fun _ h => ⟨_, rfl, h⟩

/-- **One lookup after another** finds what the one step after the other comes to. -/
theorem Finds.bind {look : Lookup α} {next : α → Lookup β} {x : Except SchemaError α}
    {f : α → Except SchemaError β} (hlook : Finds s look x) (hnext : ∀ a, Finds s (next a) (f a)) :
    Finds s (look >>= next) (x >>= f) := by
  intro state h
  obtain ⟨state', hrun, h'⟩ := hlook state h
  rw [runOn_bind, hrun]
  cases x with
  | error e => exact ⟨state', rfl, h'⟩
  | ok a => exact hnext a state' h'

theorem Finds.map {look : Lookup α} {x : Except SchemaError α} (hlook : Finds s look x)
    (g : α → β) : Finds s (g <$> look) (g <$> x) := by
  rw [map_eq_pure_bind, map_eq_pure_bind]
  exact hlook.bind fun a => finds_pure (g a)

theorem Finds.mapM {look : α → Lookup β} {f : α → Except SchemaError β}
    (hlook : ∀ a, Finds s (look a) (f a)) (as : List α) : Finds s (as.mapM look) (as.mapM f) := by
  induction as with
  | nil => exact finds_pure []
  | cons a as ih =>
    rw [List.mapM_cons, List.mapM_cons]
    exact (hlook a).bind fun b => ih.bind fun bs => finds_pure (b :: bs)

end Lookup

namespace Schema
open Lookup
variable (s : Schema)

theorem finds_recallIds : Finds s s.recallIds s.idIndex := by
  intro state h
  rw [runOn_recallIds]
  cases hids : state.memo.ids with
  | none => exact ⟨_, rfl, h.setIds⟩
  | some outcome =>
    rw [h.ids outcome hids]
    exact ⟨state, rfl, h⟩

theorem finds_recallPaths (case : NameCase) : Finds s (s.recallPaths case) (s.pathIndex case) := by
  intro state h
  rw [runOn_recallPaths]
  cases hpaths : state.memo.paths case with
  | none => exact ⟨_, rfl, h.setPaths case⟩
  | some outcome =>
    rw [h.paths case outcome hpaths]
    exact ⟨state, rfl, h⟩

theorem finds_lookId (id : FieldId) : Finds s (s.lookId id) (s.fieldWithId id) :=
  s.finds_recallIds.bind fun index => finds_pure (index.find? s.root id)

theorem finds_lookPath (path : String) (case : NameCase) :
    Finds s (s.lookPath path case) (s.fieldAtPath path case) := by
  refine (s.finds_recallPaths case).bind fun index => ?_
  cases index.get? path with
  | none => exact finds_pure none
  | some id => exact s.finds_lookId id

theorem finds_lookSelected (path : String) (case : NameCase) :
    Finds s (s.lookSelected path case) (Option.map Field.id <$> s.fieldAtPath path case) := by
  rw [map_eq_pure_bind]
  refine (s.finds_lookPath path case).bind fun field => ?_
  cases field with
  | none => exact (finds_note (.pathUnmatched path)).bind fun _ => finds_pure none
  | some field => exact finds_pure (some field.id)

/-- Taking the numbers of the fields found is the same for one path after the other and for all at
once. -/
theorem idsAtPaths_eq_bind (paths : List String) (case : NameCase) :
    s.idsAtPaths paths case =
      (paths.mapM fun path => Option.map Field.id <$> s.fieldAtPath path case) >>= fun found =>
        pure (found.filterMap id) := by
  rw [idsAtPaths, mapM_map_eq_map_mapM, bind_map_left]
  simp only [List.filterMap_map, Function.id_comp]

/-- **A selection with the help of what is remembered** keeps what the plain one keeps. -/
theorem finds_lookSelection (paths : List String) (case : NameCase) :
    Finds s (s.lookSelection paths case) (s.select paths case) := by
  rw [lookSelection, select]
  by_cases hwild : wildcard ∈ paths
  · rw [if_pos hwild, if_pos hwild]
    exact finds_pure (Derived.mk s .whole)
  · rw [if_neg hwild, if_neg hwild, idsAtPaths_eq_bind, bind_assoc]
    refine (Finds.mapM (fun path => s.finds_lookSelected path case) paths).bind fun found => ?_
    rw [pure_bind]
    exact finds_liftM (s.prune ⟨found.filterMap id, .subtree⟩)

/-- **Every query finds its plain answer**, whatever of the schema is remembered. -/
theorem finds_look (query : Query) : Finds s (s.look query) (s.answer query) := by
  cases query with
  | fieldWithId id => exact (s.finds_lookId id).map Answer.field
  | fieldAtPath path case => exact (s.finds_lookPath path case).map Answer.field
  | pathOf id =>
    rw [answer, pathOf, map_bind]
    exact (s.finds_recallPaths .asWritten).bind fun index =>
      finds_pure (Answer.path (index.path? id))
  | highestId =>
    rw [answer, highestId, map_bind]
    exact s.finds_recallIds.bind fun index => finds_pure (Answer.id index.highest?)
  | select paths case => exact (s.finds_lookSelection paths case).map Answer.derived
  | project ids =>
    rw [answer, map_eq_pure_bind]
    exact (finds_liftM (s.project ids)).bind fun d => finds_pure (Answer.derived d)

/-- **A query is answered the same whatever was asked before.** -/
theorem fst_runFrom_look {memo : IndexMemo} (h : memo.Faithful s) (query : Query) :
    ((s.look query).runFrom memo).1 = s.answer query := by
  obtain ⟨state, hrun, -⟩ := s.finds_look query ⟨memo, []⟩ h
  rw [runFrom, hrun]

end Schema
end TableSchema
