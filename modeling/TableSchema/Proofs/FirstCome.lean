import Mathlib.Data.List.Dedup
import Mathlib.Data.List.Induction

/-!
# Tables in which the first entry stays

The indexes are tables of keys and values that are read with `List.lookup`.  A key that is given
twice keeps its first value: `List.lookup` finds the first entry anyway, and `firstCome` is the
table without the entries that it never finds.  So it has each key once (`nodup_keys_firstCome`) and
answers like the list that it was made from (`lookup_firstCome`).
-/

namespace TableSchema

variable {α β κ : Type} [BEq κ] [LawfulBEq κ]

/-- Looking a key up in the table of some things finds the first thing with that key. -/
theorem lookup_map [DecidableEq κ] (key : α → κ) (value : α → β) (as : List α) (k : κ) :
    (as.map fun a => (key a, value a)).lookup k = (as.find? fun a => key a = k).map value := by
  induction as with
  | nil => rfl
  | cons a as ih =>
    rw [List.map_cons, List.lookup_cons, List.find?_cons, ih]
    by_cases hk : key a = k
    · simp [hk]
    · simp [hk, beq_eq_false_iff_ne.2 (Ne.symm hk)]

omit [BEq κ] [LawfulBEq κ] in
/-- Under the key of a thing the first thing with that key is found. -/
theorem exists_find?_key [DecidableEq κ] (key : α → κ) {as : List α} {a : α} (ha : a ∈ as) :
    ∃ b ∈ as, (as.find? fun b => key b = key a) = some b ∧ key b = key a := by
  obtain ⟨b, hb⟩ : ∃ b, (as.find? fun b => key b = key a) = some b := by
    rw [← Option.isSome_iff_exists, List.find?_isSome]
    exact ⟨a, ha, decide_eq_true rfl⟩
  exact ⟨b, List.mem_of_find?_eq_some hb, hb, by simpa using List.find?_some hb⟩

omit [BEq κ] [LawfulBEq κ] in
/-- Of things with different keys, the one with a key is found under it. -/
theorem find?_key_eq_some [DecidableEq κ] {key : α → κ} {as : List α} (h : (as.map key).Nodup)
    {a : α} (ha : a ∈ as) : (as.find? fun b => key b = key a) = some a := by
  obtain ⟨b, hb, hfind, hkey⟩ := exists_find?_key key ha
  rw [hfind, List.inj_on_of_nodup_map h hb ha hkey]

/-- The keys of a table are those under which something is found. -/
theorem mem_keys_iff {entries : List (κ × β)} {k : κ} :
    k ∈ entries.map Prod.fst ↔ (entries.lookup k).isSome = true := by
  rw [List.lookup_isSome_iff, List.mem_map]
  exact exists_congr fun entry => and_congr_right fun _ => by rw [beq_iff_eq, eq_comm]

/-- Adds an entry unless its key is taken. -/
def insertNew (taken : List (κ × β)) (entry : κ × β) : List (κ × β) :=
  if (taken.lookup entry.1).isSome then taken else taken ++ [entry]

/-- **The table of some entries**, of which those with the same key come to the first one. -/
def firstCome (entries : List (κ × β)) : List (κ × β) := entries.foldl insertNew []

/-- What is found in a table does not change by leaving out an entry whose key is taken. -/
theorem lookup_insertNew (taken : List (κ × β)) (entry : κ × β) (k : κ) :
    (insertNew taken entry).lookup k = (taken ++ [entry]).lookup k := by
  rw [insertNew]
  split
  · rename_i htaken
    rw [List.lookup_append]
    cases hk : taken.lookup k with
    | some v => rfl
    | none =>
      have hne : k ≠ entry.1 := by
        rintro rfl
        rw [hk] at htaken
        cases htaken
      rw [List.lookup_cons, beq_eq_false_iff_ne.2 hne]
      rfl
  · rfl

theorem lookup_foldl_insertNew (taken entries : List (κ × β)) (k : κ) :
    (entries.foldl insertNew taken).lookup k = (taken ++ entries).lookup k := by
  induction entries generalizing taken with
  | nil => simp
  | cons entry entries ih =>
    rw [List.foldl_cons, ih, List.lookup_append, lookup_insertNew, ← List.lookup_append,
      List.append_assoc, List.singleton_append]

/-- **The table answers like the list of its entries.** -/
@[simp] theorem lookup_firstCome (entries : List (κ × β)) (k : κ) :
    (firstCome entries).lookup k = entries.lookup k :=
  lookup_foldl_insertNew [] entries k

theorem nodup_keys_insertNew {taken : List (κ × β)} (h : (taken.map Prod.fst).Nodup)
    (entry : κ × β) : ((insertNew taken entry).map Prod.fst).Nodup := by
  rw [insertNew]
  split
  · exact h
  · rename_i hnew
    rw [← mem_keys_iff] at hnew
    rw [List.map_append, List.map_singleton]
    refine List.nodup_append.2 ⟨h, List.nodup_singleton _, fun k hk l hl hkl => hnew ?_⟩
    rwa [← List.mem_singleton.1 hl, ← hkl]

/-- **The table has each key once.** -/
theorem nodup_keys_firstCome (entries : List (κ × β)) :
    ((firstCome entries).map Prod.fst).Nodup := by
  refine List.foldlRecOn (motive := fun table => (table.map Prod.fst).Nodup) entries insertNew
    ?_ fun taken htaken entry _ => nodup_keys_insertNew htaken entry
  exact List.nodup_nil

/-- **What stays in the table is what is found in the list.** -/
theorem mem_firstCome_iff {entries : List (κ × β)} {k : κ} {v : β} :
    (k, v) ∈ firstCome entries ↔ entries.lookup k = some v := by
  rw [← lookup_firstCome, List.lookup_eq_some_iff]
  constructor
  · intro hmem
    obtain ⟨before, after, htable⟩ := List.append_of_mem hmem
    have hnodup := nodup_keys_firstCome entries
    rw [htable, List.map_append, List.map_cons] at hnodup
    refine ⟨before, after, htable, fun entry hentry => bne_iff_ne.2 fun hkey => ?_⟩
    -- An entry before it with the same key would be there twice.
    have hbefore : k ∈ before.map Prod.fst := List.mem_map.2 ⟨entry, hentry, hkey.symm⟩
    exact (List.nodup_append.1 hnodup).2.2 k hbefore k List.mem_cons_self rfl
  · rintro ⟨before, after, htable, -⟩
    rw [htable]
    exact List.mem_append_right before List.mem_cons_self

omit [LawfulBEq κ] in
theorem firstCome_append (xs ys : List (κ × β)) :
    firstCome (xs ++ ys) = ys.foldl insertNew (firstCome xs) :=
  List.foldl_append

/-- What is found among the entries with keys of some kind. -/
theorem lookup_filter_key (keep : κ → Bool) (entries : List (κ × β)) (k : κ) :
    (entries.filter fun entry => keep entry.1).lookup k =
      if keep k then entries.lookup k else none := by
  induction entries with
  | nil => simp
  | cons entry entries ih =>
    obtain ⟨key, value⟩ := entry
    by_cases hk : k = key
    · subst hk
      cases hkeep : keep k <;> simp [hkeep, ih]
    · cases hkeep : keep key <;> simp [List.lookup_cons, hkeep, ih, beq_eq_false_iff_ne.2 hk]

/-- **The table has as many entries as there are different keys.** -/
theorem length_firstCome [DecidableEq κ] (entries : List (κ × β)) :
    (firstCome entries).length = (entries.map Prod.fst).dedup.length := by
  have hperm : ((firstCome entries).map Prod.fst).Perm (entries.map Prod.fst).dedup := by
    rw [List.perm_ext_iff_of_nodup (nodup_keys_firstCome entries) (List.nodup_dedup _)]
    intro k
    rw [List.mem_dedup, mem_keys_iff, mem_keys_iff, lookup_firstCome]
  rw [← hperm.length_eq, List.length_map]

/-- Entries of which no two have the same key all stay. -/
theorem firstCome_eq_self {entries : List (κ × β)} (h : (entries.map Prod.fst).Nodup) :
    firstCome entries = entries := by
  induction entries using List.reverseRecOn with
  | nil => rfl
  | append_singleton entries entry ih =>
    rw [List.map_append, List.map_singleton] at h
    obtain ⟨hinit, -, hnew⟩ := List.nodup_append.1 h
    rw [firstCome_append, ih hinit, List.foldl_cons, List.foldl_nil, insertNew, if_neg]
    rw [← mem_keys_iff]
    exact fun hmem => hnew _ hmem _ (List.mem_singleton_self _) rfl

end TableSchema
