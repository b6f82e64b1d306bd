import TableSchema.Proofs.LeafGrammar

/-!
# Reading a leaf type back from its text

The canonical text of a leaf type is one of its spellings (`Primitive.spelling_text`): the numbers
are written in decimal digits, and the blank after the comma of a decimal type is white space around
the second number.  A spelling has no capital in it and neither begins nor ends with white space, so
that reading undoes white space around it and any change of the case of its letters
(`Primitive.read_of_spelling`).
-/

namespace TableSchema

/-! ## Trimming and folding -/

namespace Blank

/-- White space is no letter, so that folding leaves it alone. -/
theorem isAlpha_eq_false_of_isBlank {c : Char} (h : isBlank c) : c.isAlpha = false := by
  cases halpha : c.isAlpha with
  | false => rfl
  | true =>
    rw [isBlank_eq_false_of_isAlpha halpha] at h
    cases h

/-- Folding makes no white space and takes none away. -/
theorem isBlank_toLower (c : Char) : isBlank c.toLower = isBlank c := by
  rw [Bool.eq_iff_iff]
  constructor
  · intro h
    have hsame : c = c.toLower := (toLower_eq_iff (isAlpha_eq_false_of_isBlank h)).1 rfl
    rwa [← hsame] at h
  · intro h
    have hsame : c.toLower = c := (toLower_eq_iff (isAlpha_eq_false_of_isBlank h)).2 rfl
    rwa [hsame]

theorem trimLeft_map_toLower (cs : List Char) :
    trimLeft (cs.map Char.toLower) = (trimLeft cs).map Char.toLower := by
  have hblank : isBlank ∘ Char.toLower = isBlank := funext isBlank_toLower
  rw [trimLeft, List.dropWhile_map, hblank, ← trimLeft]

/-- **Trimming and folding may change places.** -/
theorem trim_map_toLower (cs : List Char) :
    trim (cs.map Char.toLower) = (trim cs).map Char.toLower := by
  rw [trim, trimLeft_map_toLower, ← List.map_reverse, trimLeft_map_toLower, ← List.map_reverse,
    ← trim]

end Blank

namespace Primitive

/-! ## Spellings are folded and trimmed -/

/-- There is no capital among the characters of spellings. -/
theorem isUpper_eq_false_of_inAlphabet {c : Char} (h : inAlphabet c) : c.isUpper = false := by
  rw [Bool.eq_false_iff]
  intro hupper
  have hcapital := isUpper_iff_toNat.1 hupper
  simp only [inAlphabet, Bool.or_eq_true, decide_eq_true_eq] at h
  rcases h with ((hlower | hblank) | hdigit) | hother
  · have hsmall := isLower_iff_toNat.1 hlower
    omega
  · rw [Blank.isBlank_eq_false_of_toNat (by omega)] at hblank
    cases hblank
  · have hblock : 48 ≤ c.toNat ∧ c.toNat ≤ 57 := Char.isDigit_iff_toNat.1 hdigit
    omega
  · have hnone : "()[],+".toList.any Char.isUpper = false := by decide
    exact List.any_eq_false.1 hnone c hother hupper

/-- **A spelling is folded.** -/
theorem Spelling.map_toLower {cs : List Char} {p : Primitive} (h : Spelling cs p) :
    cs.map Char.toLower = cs := by
  have hsame (c : Char) (hc : c ∈ cs) : c.toLower = id c :=
    toLower_eq_self (isUpper_eq_false_of_inAlphabet (h.inAlphabet hc))
  rw [List.map_congr_left hsame, List.map_id]

/-- A word has letters at both ends, and so it is trimmed. -/
theorem Word.trim_eq {w : String} {p : Primitive} (h : Word w p) :
    Blank.trim w.toList = w.toList := by
  have hletter (c : Char) (hc : c ∈ w.toList) : Blank.isBlank c = false := by
    have hlower : c.isLower = true := List.all_eq_true.1 h.letters.1 c hc
    exact Blank.isBlank_eq_false_of_isAlpha (Bool.or_eq_true_iff.2 (.inr hlower))
  exact Blank.trim_eq_self (fun c hc => hletter c (List.mem_of_mem_head? hc))
    fun c hc => hletter c (List.mem_of_mem_getLast? hc)

/-- **A spelling is trimmed.** -/
theorem Spelling.trim_eq {cs : List Char} {p : Primitive} (h : Spelling cs p) :
    Blank.trim cs = cs := by
  cases h with
  | word h => exact h.trim_eq
  | @decimal l r _ _ _ _ _ =>
    have hhead : (decimalText l r).head? = some 'd' := rfl
    have hlast : (decimalText l r).getLast? = some ')' := List.getLast?_concat
    exact Blank.trim_eq_self_of_ends hhead hlast (by decide) (by decide)
  | @fixed cs _ _ =>
    have hhead : (fixedText cs).head? = some 'f' := rfl
    have hlast : (fixedText cs).getLast? = some ']' := List.getLast?_concat
    exact Blank.trim_eq_self_of_ends hhead hlast (by decide) (by decide)

/-- **Reading undoes white space around a spelling and the case of its letters.** -/
theorem read_of_spelling {s before after : String} {p : Primitive}
    (h : Spelling (asciiFold s).toList p) (hbefore : ∀ c ∈ before.toList, Blank.isBlank c)
    (hafter : ∀ c ∈ after.toList, Blank.isBlank c) : read (before ++ s ++ after) = .ok p := by
  have hfolded : folded (before ++ s ++ after) = (asciiFold s).toList := by
    rw [folded, String.toList_append, String.toList_append, Blank.trim_append hbefore hafter,
      ← Blank.trim_map_toLower, ← toList_asciiFold, h.trim_eq]
  rw [read_eq_ok_iff_spelling, hfolded]
  exact h

/-! ## Texts -/

/-- The digits of a number stand for it, with white space in front or without. -/
theorem number_toDigits {before : List Char} (hbefore : ∀ c ∈ before, Blank.isBlank c) (n : Nat) :
    Number (before ++ Nat.toDigits 10 n) n := by
  have hdigit (c : Char) (hc : c ∈ Nat.toDigits 10 n) : Blank.isBlank c = false := by
    have hdigit := Nat.isDigit_of_mem_toDigits (by decide) (by decide) hc
    exact Blank.isBlank_eq_false_of_isDigit hdigit
  refine ⟨Nat.toDigits 10 n, ⟨⟨before, [], (List.append_nil _).symm, hbefore, by simp⟩, ?_, ?_⟩,
    Numeral.written_toDigits n⟩
  · exact fun c hc => hdigit c (List.mem_of_mem_head? hc)
  · exact fun c hc => hdigit c (List.mem_of_mem_getLast? hc)

theorem toList_text_decimal (precision scale : UInt32) :
    (decimal precision scale).text.toList =
      decimalText (Nat.toDigits 10 precision.toNat) (' ' :: Nat.toDigits 10 scale.toNat) := by
  simp [text, decimalText, bracketed]

theorem toList_text_fixed (length : UInt64) :
    (fixed length).text.toList = fixedText (Nat.toDigits 10 length.toNat) := by
  simp [text, fixedText, bracketed]

/-- **The text of a leaf type is a spelling of it.** -/
theorem spelling_text (p : Primitive) : Spelling p.text.toList p := by
  cases p with
  | boolean => exact .word .boolean
  | int => exact .word .int
  | long => exact .word .long
  | float => exact .word .float
  | double => exact .word .double
  | decimal precision scale =>
    rw [toList_text_decimal]
    have hleft : Number (Nat.toDigits 10 precision.toNat) precision.toNat :=
      number_toDigits (List.forall_mem_nil _) precision.toNat
    have hblank : ∀ c ∈ [' '], Blank.isBlank c := List.forall_mem_singleton.2 rfl
    have hright : Number (' ' :: Nat.toDigits 10 scale.toNat) scale.toNat :=
      number_toDigits hblank scale.toNat
    exact .decimal hleft.comma_not_mem hleft hright
  | date => exact .word .date
  | time => exact .word .time
  | timestamp => exact .word .timestamp
  | timestampTz => exact .word .timestampTz
  | string => exact .word .string
  | uuid => exact .word .uuid
  | fixed length =>
    rw [toList_text_fixed]
    exact .fixed (number_toDigits (List.forall_mem_nil _) length.toNat)
  | binary => exact .word .binary

/-- White space around the text of a leaf type and the case of its letters make no difference. -/
theorem read_of_asciiFold_eq {p : Primitive} {before s after : String}
    (hs : asciiFold s = asciiFold p.text) (hbefore : ∀ c ∈ before.toList, Blank.isBlank c)
    (hafter : ∀ c ∈ after.toList, Blank.isBlank c) : read (before ++ s ++ after) = .ok p := by
  refine read_of_spelling ?_ hbefore hafter
  rw [hs, toList_asciiFold, (spelling_text p).map_toLower]
  exact spelling_text p

theorem read_eq_ok_of_text (p : Primitive) : read p.text = .ok p := by
  have hblank : ∀ c ∈ "".toList, Blank.isBlank c := List.forall_mem_nil _
  have hbare := read_of_asciiFold_eq (p := p) rfl hblank hblank
  rwa [String.empty_append, String.append_empty] at hbare

/-- **No two leaf types have one text.** -/
theorem text_injective : Function.Injective text := by
  intro p q hpq
  have hread : (Except.ok p : Except UnknownPrimitive Primitive) = .ok q := by
    rw [← read_eq_ok_of_text p, hpq, read_eq_ok_of_text q]
  exact Except.ok.inj hread

/-- **A leaf type is read back from its text**, with white space around the text and its letters in
any case, so that no two leaf types have one text.  What is read from any text can be written and is
read again as the same. -/
theorem read_text :
    (∀ p : Primitive, read p.text = .ok p) ∧
      (∀ (p : Primitive) (before s after : String), asciiFold s = asciiFold p.text →
        (∀ c ∈ before.toList, Blank.isBlank c) → (∀ c ∈ after.toList, Blank.isBlank c) →
          read (before ++ s ++ after) = .ok p) ∧
      Function.Injective text ∧
      ∀ (s : String) (p : Primitive), read s = .ok p → read p.text = read s := by
  refine ⟨read_eq_ok_of_text, ?_, text_injective, ?_⟩
  · intro p before s after hs hbefore hafter
    exact read_of_asciiFold_eq hs hbefore hafter
  · intro s p hs
    rw [read_eq_ok_of_text p, hs]

/-- The greatest numbers, with the letters in another case and white space around the text. -/
theorem read_text_greatest :
    read ("\u00A0\t" ++ "DeciMal(4294967295, 4294967295)" ++ "\u3000\n") =
        .ok (decimal 4294967295 4294967295) ∧
      read ("" ++ "FIXED[18446744073709551615]" ++ " ") = .ok (fixed 18446744073709551615) ∧
      read (decimal 4294967295 4294967295).text = read "decimal(+4294967295,04294967295)" :=
  ⟨read_text.2.1 (decimal 4294967295 4294967295) _ _ _ (asciiFold_inj.2 (by decide))
      (List.all_eq_true.1 (by decide)) (List.all_eq_true.1 (by decide)),
    read_text.2.1 (fixed 18446744073709551615) _ _ _ (asciiFold_inj.2 (by decide))
      (List.all_eq_true.1 (by decide)) (List.all_eq_true.1 (by decide)),
    read_text.2.2.2 _ _ (by decide)⟩

end Primitive
end TableSchema
