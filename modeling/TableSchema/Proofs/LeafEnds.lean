import TableSchema.Proofs.LeafRoundTrip

/-!
# Where a leaf type ends

In the text of a schema the leaf types stand among other things, and some begin like others: `time`
like `timestamp`, and that like `timestamptz`.  What can follow a type begins with a blank, a line
end, `>` or `:` (`EndsType`).  None of these is a letter, so that the word of a leaf type ends
there, and none opens a bracket, so that it can be seen whether numbers follow.  So both the leaf
type and what follows it can be read off (`Primitive.text_append_inj`).

The statements compare two texts with anything behind them, and give back both that the same was
written and that the same follows.
-/

namespace TableSchema

/-! ## Parts of a text -/

/-- **A part made of characters of one sort ends where another sort follows.** -/
theorem append_inj_of_all {p : Char → Bool} {part part' rest rest' : List Char}
    (hpart : ∀ c ∈ part, p c) (hpart' : ∀ c ∈ part', p c)
    (hrest : ∀ c ∈ rest.head?, p c = false) (hrest' : ∀ c ∈ rest'.head?, p c = false)
    (h : part ++ rest = part' ++ rest') : part = part' ∧ rest = rest' := by
  have htake {l r : List Char} (hl : ∀ c ∈ l, p c) (hr : ∀ c ∈ r.head?, p c = false) :
      (l ++ r).takeWhile p = l := by
    rw [List.takeWhile_append_of_pos hl]
    cases r with
    | nil => rw [List.takeWhile_nil, List.append_nil]
    | cons c r => rw [List.takeWhile_cons_of_neg (Bool.eq_false_iff.1 (hr c rfl)), List.append_nil]
  have hsame : part = part' := by
    rw [← htake hpart hrest, h, htake hpart' hrest']
  subst hsame
  exact ⟨rfl, List.append_cancel_left h⟩

/-- A part without certain marks ends at the first one. -/
theorem append_inj_of_marks {marks part part' rest rest' : List Char} {c c' : Char}
    (hpart : ∀ c ∈ part, c ∉ marks) (hpart' : ∀ c ∈ part', c ∉ marks) (hc : c ∈ marks)
    (hc' : c' ∈ marks) (h : part ++ c :: rest = part' ++ c' :: rest') :
    part = part' ∧ c = c' ∧ rest = rest' := by
  have hstop {c : Char} {cs : List Char} (hc : c ∈ marks) :
      ∀ d ∈ (c :: cs).head?, decide (d ∉ marks) = false := by
    intro d hd
    cases hd
    exact decide_eq_false (not_not_intro hc)
  obtain ⟨hsame, hrest⟩ := append_inj_of_all (fun c hc => decide_eq_true (hpart c hc))
    (fun c hc => decide_eq_true (hpart' c hc)) (hstop hc) (hstop hc') h
  exact ⟨hsame, List.cons.inj hrest⟩

/-- A part without a mark ends at the mark. -/
theorem append_inj_of_mark {mark : Char} {part part' rest rest' : List Char} (hpart : mark ∉ part)
    (hpart' : mark ∉ part') (h : part ++ mark :: rest = part' ++ mark :: rest') :
    part = part' ∧ rest = rest' := by
  have hother {l : List Char} (hl : mark ∉ l) : ∀ c ∈ l, c ∉ [mark] := by
    intro c hc hmem
    obtain rfl := List.mem_singleton.1 hmem
    exact hl hc
  obtain ⟨hsame, -, hrest⟩ := append_inj_of_marks (hother hpart) (hother hpart')
    (List.mem_singleton_self mark) (List.mem_singleton_self mark) h
  exact ⟨hsame, hrest⟩

/-- **What may follow a type**: nothing, or something that begins with one of these characters. -/
def EndsType (rest : List Char) : Prop := ∀ c ∈ rest.head?, c ∈ " \n>:".toList

/-- A word of small letters ends in front of an opening angle. -/
theorem isLower_head?_angle {behind : List Char} :
    ∀ c ∈ ('<' :: behind).head?, c.isLower = false := by
  intro c hc
  cases hc
  decide

/-! ## Leaf types -/

namespace Primitive

/-- **What stands behind the word of a leaf type**: nothing, or something in brackets in which no
bracket is closed. -/
inductive Arguments : List Char → Prop
  | none : Arguments []
  | bracketed {opening closing : Char} {inner : List Char} (opens : opening ∈ "([".toList)
    (closes : closing ∈ ")]".toList) (notClosed : ∀ c ∈ inner, c ∉ ")]".toList) :
    Arguments (opening :: (inner ++ [closing]))

/-- Behind the word of a leaf type there is an opening bracket or the type ends. -/
theorem Arguments.head?_append {as rest : List Char} (h : Arguments as) (hrest : EndsType rest) :
    ∀ c ∈ (as ++ rest).head?, c ∈ "([ \n>:".toList := by
  have hopening : "([".toList ⊆ "([ \n>:".toList := by decide
  have hstop : " \n>:".toList ⊆ "([ \n>:".toList := by decide
  intro c hc
  cases h with
  | none => exact hstop (hrest c hc)
  | bracketed hopens _ _ =>
    cases hc
    exact hopening hopens

/-- So the word of a leaf type, which is made of small letters, ends there. -/
theorem Arguments.isLower_head? {as rest : List Char} (h : Arguments as) (hrest : EndsType rest) :
    ∀ c ∈ (as ++ rest).head?, c.isLower = false := by
  have hnone : "([ \n>:".toList.any Char.isLower = false := by decide
  intro c hc
  exact Bool.eq_false_iff.2 (List.any_eq_false.1 hnone c (h.head?_append hrest c hc))

/-- What ends a type does not open the brackets of one. -/
theorem not_opening_of_endsType {c : Char} {rest : List Char} (h : EndsType (c :: rest)) :
    c ∉ "([".toList := by
  have hdisjoint : List.Disjoint " \n>:".toList "([".toList := by simp
  exact hdisjoint (h c rfl)

/-- **The brackets of a leaf type end where they are closed**, and if it has none, what follows does
not begin with any. -/
theorem Arguments.append_inj {as as' rest rest' : List Char} (h : Arguments as)
    (h' : Arguments as') (hrest : EndsType rest) (hrest' : EndsType rest')
    (heq : as ++ rest = as' ++ rest') : as = as' ∧ rest = rest' := by
  cases h with
  | none =>
    cases h' with
    | none => exact ⟨rfl, heq⟩
    | bracketed hopens _ _ =>
      obtain rfl : rest = _ := heq
      exact absurd hopens (not_opening_of_endsType hrest)
  | @bracketed opening closing inner hopens hcloses hinner =>
    cases h' with
    | none =>
      obtain rfl : _ = rest' := heq
      exact absurd hopens (not_opening_of_endsType hrest')
    | @bracketed opening' closing' inner' _ hcloses' hinner' =>
      simp only [List.cons_append, List.cons.injEq, List.append_assoc, List.nil_append] at heq
      obtain ⟨rfl, hbehind⟩ := heq
      obtain ⟨rfl, rfl, rfl⟩ := append_inj_of_marks hinner hinner' hcloses hcloses' hbehind
      exact ⟨rfl, rfl⟩

/-- **A spelling is a word of small letters and what stands behind it.** -/
theorem Spelling.exists_arguments {cs : List Char} {p : Primitive} (h : Spelling cs p) :
    ∃ word as, cs = word ++ as ∧ (∀ c ∈ word, c.isLower) ∧ Arguments as := by
  have hnumber {ds : List Char} {n : Nat} (hn : Number ds n) : ∀ c ∈ ds, c ∉ ")]".toList := by
    intro c hc hmem
    have hbracket : c = ')' ∨ c = ']' := by simpa using hmem
    rcases hbracket with rfl | rfl
    · exact absurd (hn.mem hc) (by decide)
    · exact absurd (hn.mem hc) (by decide)
  cases h with
  | @word w _ hword =>
    exact ⟨w.toList, [], (List.append_nil _).symm, List.all_eq_true.1 hword.letters.1, .none⟩
  | @decimal l r _ _ _ hleft hright =>
    have hinner : ∀ c ∈ l ++ ',' :: r, c ∉ ")]".toList := by
      intro c hc
      rcases List.mem_append.1 hc with hmem | hmem
      · exact hnumber hleft c hmem
      · rcases List.mem_cons.1 hmem with rfl | hmem
        · decide
        · exact hnumber hright c hmem
    exact ⟨_, _, decimalText_eq l r, List.all_eq_true.1 (by decide),
      .bracketed (by decide) (by decide) hinner⟩
  | @fixed ds _ hlength =>
    exact ⟨_, _, fixedText_eq ds, List.all_eq_true.1 (by decide),
      .bracketed (by decide) (by decide) (hnumber hlength)⟩

/-- **The text of a leaf type ends where something follows that ends a type.** -/
theorem text_append_inj {p q : Primitive} {rest rest' : List Char} (hrest : EndsType rest)
    (hrest' : EndsType rest') (h : p.text.toList ++ rest = q.text.toList ++ rest') :
    p = q ∧ rest = rest' := by
  obtain ⟨word, as, hp, hword, has⟩ := (spelling_text p).exists_arguments
  obtain ⟨word', as', hq, hword', has'⟩ := (spelling_text q).exists_arguments
  rw [hp, hq, List.append_assoc, List.append_assoc] at h
  obtain ⟨rfl, hbehind⟩ := append_inj_of_all hword hword' (has.isLower_head? hrest)
    (has'.isLower_head? hrest') h
  obtain ⟨rfl, rfl⟩ := has.append_inj has' hrest hrest' hbehind
  exact ⟨text_injective (String.toList_inj.1 (hp.trans hq.symm)), rfl⟩

/-- No leaf type has a word with `<` behind it. -/
theorem text_append_ne {p : Primitive} {rest word behind : List Char} (hrest : EndsType rest)
    (hword : ∀ c ∈ word, c.isLower) : p.text.toList ++ rest ≠ word ++ '<' :: behind := by
  obtain ⟨word', as, hp, hword', has⟩ := (spelling_text p).exists_arguments
  rw [hp, List.append_assoc]
  intro h
  obtain ⟨-, hbehind⟩ :=
    append_inj_of_all hword' hword (has.isLower_head? hrest) isLower_head?_angle h
  have hmem := has.head?_append hrest '<'
  rw [hbehind] at hmem
  exact absurd (hmem rfl) (by decide)

end Primitive

end TableSchema
