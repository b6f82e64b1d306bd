import TableSchema.SchemaError

/-!
# Outcomes of a chain of steps

Pruning and lookups go through lists of slots and of paths one after the other and end at the
first failure.  This module says what such a pass comes to without the order of evaluation: it
fails with the first failure of any step (`failure?_mapM`), and if no step fails it has the
answers of all of them, in order (`getElem?_of_mapM_eq_ok`).
-/

namespace TableSchema

variable {α β γ ε : Type}

/-- The failure of an outcome, if it is one. -/
def failure? : Except ε α → Option ε
  | .ok _ => none
  | .error e => some e

@[simp] theorem failure?_ok (a : α) : failure? (.ok a : Except ε α) = none := rfl

@[simp] theorem failure?_error (e : ε) : failure? (.error e : Except ε α) = some e := rfl

theorem failure?_eq_some_iff {x : Except ε α} {e : ε} : failure? x = some e ↔ x = .error e := by
  cases x <;> simp

theorem failure?_eq_none_iff {x : Except ε α} : failure? x = none ↔ ∃ a, x = .ok a := by
  cases x <;> simp

theorem bind_eq_ok_iff {x : Except ε α} {f : α → Except ε β} {b : β} :
    x >>= f = .ok b ↔ ∃ a, x = .ok a ∧ f a = .ok b := by
  cases x <;> simp [bind, Except.bind]

/-- **One step after another** fails as the first one does, or else as the second one does. -/
theorem failure?_bind (x : Except ε α) (f : α → Except ε β) :
    failure? (x >>= f) = (failure? x).or (x.toOption.bind fun a => failure? (f a)) := by
  cases x <;> rfl

/-- What is done with an answer cannot fail if the doing cannot. -/
theorem failure?_bind_pure (x : Except ε α) (f : α → β) :
    failure? (x >>= fun a => pure (f a)) = failure? x := by
  cases x <;> rfl

/-- **A pass over a list fails with the first failure of a step.** -/
theorem failure?_mapM (f : α → Except ε β) (as : List α) :
    failure? (as.mapM f) = as.findSome? fun a => failure? (f a) := by
  induction as with
  | nil => rfl
  | cons a as ih =>
    rw [List.mapM_cons, List.findSome?_cons, ← ih]
    cases f a with
    | error e => rfl
    | ok b => cases as.mapM f <;> rfl

theorem length_of_mapM_eq_ok {f : α → Except ε β} {as : List α} {bs : List β}
    (h : as.mapM f = .ok bs) : bs.length = as.length := by
  induction as generalizing bs with
  | nil =>
    cases h
    rfl
  | cons a as ih =>
    rw [List.mapM_cons] at h
    obtain ⟨b, -, h⟩ := bind_eq_ok_iff.1 h
    obtain ⟨bs', hbs, h⟩ := bind_eq_ok_iff.1 h
    cases h
    simp [ih hbs]

/-- **A pass over a list that does not fail answers every step**, in the order of the list. -/
theorem getElem?_of_mapM_eq_ok {f : α → Except ε β} {as : List α} {bs : List β}
    (h : as.mapM f = .ok bs) {i : Nat} {a : α} (ha : as[i]? = some a) :
    ∃ b, bs[i]? = some b ∧ f a = .ok b := by
  induction as generalizing bs i with
  | nil => cases ha
  | cons a' as ih =>
    rw [List.mapM_cons] at h
    obtain ⟨b, hb, h⟩ := bind_eq_ok_iff.1 h
    obtain ⟨bs', hbs, h⟩ := bind_eq_ok_iff.1 h
    cases h
    cases i with
    | zero =>
      cases ha
      exact ⟨b, rfl, hb⟩
    | succ i => exact ih hbs ha

/-- A pass whose steps all have an answer has one. -/
theorem exists_mapM_eq_ok {f : α → Except ε β} {as : List α} (h : ∀ a ∈ as, ∃ b, f a = .ok b) :
    ∃ bs, as.mapM f = .ok bs := by
  rw [← failure?_eq_none_iff, failure?_mapM, List.findSome?_eq_none_iff]
  intro a ha
  exact failure?_eq_none_iff.2 (h a ha)

/-- **Where steps can fail in one way only, the order of a pass does not show**: it fails just if
one of its steps does. -/
theorem mapM_eq_error_iff_of_unique {f : α → Except ε β} {as : List α} {e : ε}
    (hunique : ∀ a a' e e', f a = .error e → f a' = .error e' → e = e') :
    as.mapM f = .error e ↔ ∃ a ∈ as, f a = .error e := by
  rw [← failure?_eq_some_iff, failure?_mapM]
  constructor
  · intro h
    obtain ⟨a, ha, hfails⟩ := List.exists_of_findSome?_eq_some h
    exact ⟨a, ha, failure?_eq_some_iff.1 hfails⟩
  · rintro ⟨a, ha, hfails⟩
    obtain ⟨e', he'⟩ : ∃ e', (as.findSome? fun a => failure? (f a)) = some e' := by
      rw [← Option.isSome_iff_exists, List.findSome?_isSome_iff]
      exact ⟨a, ha, by rw [hfails]; rfl⟩
    obtain ⟨a', -, hfails'⟩ := List.exists_of_findSome?_eq_some he'
    rw [he', hunique a' a e' e (failure?_eq_some_iff.1 hfails') hfails]

/-- **A pass that carries something along fails with the first step that fails** on what the steps
before it come to. -/
theorem foldlM_eq_error_iff {f : β → α → Except ε β} {as : List α} {b : β} {e : ε} :
    as.foldlM f b = .error e ↔ ∃ before a after b', as = before ++ a :: after ∧
      before.foldlM f b = .ok b' ∧ f b' a = .error e := by
  constructor
  · intro h
    induction as generalizing b with
    | nil => cases h
    | cons a as ih =>
      rw [List.foldlM_cons] at h
      cases hstep : f b a with
      | error e' =>
        rw [hstep] at h
        cases h
        exact ⟨[], a, as, b, rfl, rfl, hstep⟩
      | ok b₁ =>
        rw [hstep] at h
        obtain ⟨before, a', after, b', rfl, hbefore, hfails⟩ := ih h
        refine ⟨a :: before, a', after, b', rfl, ?_, hfails⟩
        rw [List.foldlM_cons, hstep]
        exact hbefore
  · rintro ⟨before, a, after, b', rfl, hbefore, hfails⟩
    rw [List.foldlM_append, hbefore]
    change (a :: after).foldlM f b' = _
    rw [List.foldlM_cons, hfails]
    rfl

/-- A pass that carries something along and fails, fails in one of its steps. -/
theorem exists_of_foldlM_eq_error {f : β → α → Except ε β} {as : List α} {b : β} {e : ε}
    (h : as.foldlM f b = .error e) : ∃ a ∈ as, ∃ b, f b a = .error e := by
  obtain ⟨before, a, after, b', rfl, -, hfails⟩ := foldlM_eq_error_iff.1 h
  exact ⟨a, List.mem_append_right before List.mem_cons_self, b', hfails⟩

/-- **A pass over lists behind each other** is one pass over each of them. -/
theorem foldlM_flatMap (f : β → γ → Except ε β) (g : α → List γ) (as : List α) (b : β) :
    (as.flatMap g).foldlM f b = as.foldlM (fun b a => (g a).foldlM f b) b := by
  induction as generalizing b with
  | nil => rfl
  | cons a as ih =>
    rw [List.flatMap_cons, List.foldlM_append, List.foldlM_cons]
    exact bind_congr ih

/-- Steps that come to the same make passes that come to the same, whatever they carry along. -/
theorem foldlM_congr {f g : β → α → Except ε β} {as : List α} (h : ∀ a ∈ as, ∀ b, f b a = g b a)
    (b : β) : as.foldlM f b = as.foldlM g b := by
  induction as generalizing b with
  | nil => rfl
  | cons a as ih =>
    rw [List.foldlM_cons, List.foldlM_cons, h a List.mem_cons_self]
    exact bind_congr (ih fun c hc => h c (List.mem_cons_of_mem a hc))

/-- The first failure of a list of lists is looked for in one list after the other. -/
theorem findSome?_flatMap (f : β → Option ε) (g : α → List β) (as : List α) :
    (as.flatMap g).findSome? f = as.findSome? fun a => (g a).findSome? f := by
  induction as with
  | nil => rfl
  | cons a as ih =>
    rw [List.flatMap_cons, List.findSome?_append, List.findSome?_cons, ih]
    cases (g a).findSome? f <;> rfl

theorem findSome?_congr {f g : α → Option ε} {as : List α} (h : ∀ a ∈ as, f a = g a) :
    as.findSome? f = as.findSome? g := by
  induction as with
  | nil => rfl
  | cons a as ih =>
    rw [List.findSome?_cons, List.findSome?_cons, h a List.mem_cons_self,
      ih fun b hb => h b (List.mem_cons_of_mem a hb)]

/-- Steps that come to the same make passes that come to the same. -/
theorem mapM_congr {f g : α → Except ε β} {as : List α} (h : ∀ a ∈ as, f a = g a) :
    as.mapM f = as.mapM g := by
  induction as with
  | nil => rfl
  | cons a as ih =>
    rw [List.mapM_cons, List.mapM_cons, h a List.mem_cons_self,
      ih fun b hb => h b (List.mem_cons_of_mem a hb)]

/-- What is done with every answer can be done with all of them in the end. -/
theorem mapM_map_eq_map_mapM (f : α → Except ε β) (g : β → γ) (as : List α) :
    (as.mapM fun a => g <$> f a) = List.map g <$> as.mapM f := by
  induction as with
  | nil => rfl
  | cons a as ih =>
    rw [List.mapM_cons, List.mapM_cons, ih]
    cases f a with
    | error e => rfl
    | ok b => cases as.mapM f <;> rfl

end TableSchema
