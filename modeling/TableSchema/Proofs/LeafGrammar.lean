import Mathlib.Data.List.Basic
import TableSchema.PrimitiveReader

/-!
# The texts of leaf types

`Primitive.Spelling` is the grammar of leaf types as a relation between texts and types: the words
for leaf types without numbers, and the two forms with numbers in brackets.  `Primitive.read` trims
and folds a text and then accepts just what has a spelling (`Primitive.read_accepts`).

What is refused follows from the grammar alone (`Primitive.Spelling.strict`): a spelling has no
minus sign in it and at most one comma, nothing stands between a word and its bracket, and the
numbers in the brackets are there and fit their words.
-/

namespace TableSchema
namespace Primitive

/-! ## The grammar -/

/-- **The words for leaf types without numbers.** -/
inductive Word : String → Primitive → Prop
  | boolean : Word "boolean" boolean
  | bool : Word "bool" boolean
  | int : Word "int" int
  | integer : Word "integer" int
  | long : Word "long" long
  | float : Word "float" float
  | double : Word "double" double
  | date : Word "date" date
  | time : Word "time" time
  | timestamp : Word "timestamp" timestamp
  | timestampTz : Word "timestamptz" timestampTz
  | string : Word "string" string
  | uuid : Word "uuid" uuid
  | binary : Word "binary" binary

/-- A text with `opening` in front of it and `closing` behind it. -/
def bracketed (opening closing : String) (inner : List Char) : List Char :=
  opening.toList ++ inner ++ closing.toList

/-- The text of a decimal type, from what stands on both sides of a comma. -/
def decimalText (precision scale : List Char) : List Char :=
  bracketed "decimal(" ")" (precision ++ ',' :: scale)

/-- The text of a fixed-length byte array, from what stands in its brackets. -/
def fixedText (length : List Char) : List Char := bracketed "fixed[" "]" length

/-- **A number with white space around it.** -/
def Number (cs : List Char) (n : Nat) : Prop :=
  ∃ core, Blank.Surrounds cs core ∧ Numeral.Written core n

/-- **The texts of a leaf type**, trimmed and folded. -/
inductive Spelling : List Char → Primitive → Prop
  | word {w : String} {p : Primitive} (h : Word w p) : Spelling w.toList p
  | decimal {l r : List Char} {precision scale : UInt32} (comma : ',' ∉ l)
    (left : Number l precision.toNat) (right : Number r scale.toNat) :
    Spelling (decimalText l r) (decimal precision scale)
  | fixed {cs : List Char} {length : UInt64} (number : Number cs length.toNat) :
    Spelling (fixedText cs) (fixed length)

/-! ## Brackets -/

theorem mem_bracketed {opening closing : String} {inner : List Char} {c : Char} :
    c ∈ bracketed opening closing inner ↔
      c ∈ opening.toList ∨ c ∈ inner ∨ c ∈ closing.toList := by
  rw [bracketed, List.mem_append, List.mem_append, or_assoc]

/-- What stands in the brackets can be read off the text. -/
theorem bracketed_inj {opening closing : String} {inner inner' : List Char} :
    bracketed opening closing inner = bracketed opening closing inner' ↔ inner = inner' := by
  rw [bracketed, bracketed, List.append_left_inj, List.append_right_inj]

/-- The word of a decimal type, and behind it at once the bracket. -/
theorem decimalText_eq (l r : List Char) :
    decimalText l r = "decimal".toList ++ '(' :: (l ++ ',' :: r ++ [')']) := rfl

theorem fixedText_eq (cs : List Char) :
    fixedText cs = "fixed".toList ++ '[' :: (cs ++ [']']) := rfl

/-- The two forms with numbers begin with different letters. -/
theorem fixedText_ne_decimalText {cs l r : List Char} : fixedText cs ≠ decimalText l r := by
  intro h
  have hhead : some 'f' = some 'd' := congrArg List.head? h
  exact absurd hhead (by decide)

/-! ## Words -/

/-- A word has small letters only, and it begins like none of the forms with numbers. -/
theorem Word.letters {w : String} {p : Primitive} (h : Word w p) :
    w.toList.all Char.isLower ∧ ¬"decimal".toList <+: w.toList ∧ ¬"fixed".toList <+: w.toList := by
  cases h <;> decide

/-- What is no small letter stands in no word. -/
theorem Word.not_mem {w : String} {p : Primitive} (h : Word w p) {c : Char}
    (hc : c.isLower = false) : c ∉ w.toList := by
  intro hmem
  exact Bool.false_ne_true (hc.symm.trans (List.all_eq_true.1 h.letters.1 c hmem))

/-- No word has a bracket in it. -/
theorem Word.ne_bracketed {w opening closing : String} {p : Primitive} {inner : List Char}
    (h : Word w p) (hopening : opening.toList.all Char.isLower = false) :
    w.toList ≠ bracketed opening closing inner := by
  intro hw
  obtain ⟨c, hc, hlower⟩ := List.all_eq_false.1 hopening
  have hmem : c ∈ w.toList := by
    rw [hw]
    exact mem_bracketed.2 (.inl hc)
  exact hlower (List.all_eq_true.1 h.letters.1 c hmem)

theorem word_iff {w : String} {p : Primitive} : Word w p ↔ words.lookup w = some p := by
  constructor
  · intro h
    cases h <;> rfl
  · intro h
    obtain ⟨before, after, hwords, -⟩ := List.lookup_eq_some_iff.1 h
    have hmem : (w, p) ∈ words := by
      rw [hwords]
      exact List.mem_append_right before List.mem_cons_self
    simp only [words, List.mem_cons, Prod.mk.injEq, List.not_mem_nil, or_false] at hmem
    rcases hmem with h | h | h | h | h | h | h | h | h | h | h | h | h | h
    all_goals
      obtain ⟨rfl, rfl⟩ := h
      constructor

/-! ## Numbers -/

/-- A number is read from its core. -/
theorem number_iff {cs : List Char} {n : Nat} :
    Number cs n ↔ Numeral.Written (Blank.trim cs) n := by
  simp only [Number, Blank.surrounds_iff, exists_eq_left']

/-- A number is made of white space, digits and plus signs. -/
theorem Number.mem {cs : List Char} {n : Nat} (h : Number cs n) {c : Char} (hc : c ∈ cs) :
    Blank.isBlank c ∨ c.isDigit ∨ c = '+' := by
  obtain ⟨core, ⟨⟨before, after, rfl, hbefore, hafter⟩, -, -⟩, hwritten⟩ := h
  rcases List.mem_append.1 hc with hleft | hright
  · rcases List.mem_append.1 hleft with hmem | hmem
    · exact .inl (hbefore c hmem)
    · exact .inr (hwritten.isDigit_or_eq hmem)
  · exact .inl (hafter c hright)

theorem Number.comma_not_mem {cs : List Char} {n : Nat} (h : Number cs n) : ',' ∉ cs :=
  fun hmem => absurd (h.mem hmem) (by decide)

/-- **A text that stands for a number of a word**: it is not empty, and no number that it stands for
is too great for the word. -/
structure Fits (bound : Nat) (cs : List Char) : Prop where
  ne_nil : Blank.trim cs ≠ []
  lt : ∀ n, Number cs n → n < bound

theorem Number.fits {cs : List Char} {n bound : Nat} (h : Number cs n) (hn : n < bound) :
    Fits bound cs where
  ne_nil := (number_iff.1 h).ne_nil
  lt m hm := by
    have hsame : m = n := (number_iff.1 hm).value_eq.trans (number_iff.1 h).value_eq.symm
    omega

/-! ## Spellings -/

/-- The characters of spellings: small letters, digits, white space, brackets, the comma and the
plus sign. -/
def inAlphabet (c : Char) : Bool :=
  c.isLower || Blank.isBlank c || c.isDigit || c ∈ "()[],+".toList

theorem Number.inAlphabet {cs : List Char} {n : Nat} (h : Number cs n) {c : Char} (hc : c ∈ cs) :
    inAlphabet c := by
  rcases h.mem hc with hblank | hdigit | rfl
  · simp [Primitive.inAlphabet, hblank]
  · simp [Primitive.inAlphabet, hdigit]
  · decide

/-- **A spelling is made of these characters.** -/
theorem Spelling.inAlphabet {cs : List Char} {p : Primitive} (h : Spelling cs p) {c : Char}
    (hc : c ∈ cs) : inAlphabet c := by
  cases h with
  | word h => simp [Primitive.inAlphabet, List.all_eq_true.1 h.letters.1 c hc]
  | decimal _ hleft hright =>
    have hopening : "decimal(".toList.all Primitive.inAlphabet = true := by decide
    have hclosing : ")".toList.all Primitive.inAlphabet = true := by decide
    rw [decimalText, mem_bracketed, List.mem_append, List.mem_cons] at hc
    rcases hc with hmem | (hmem | rfl | hmem) | hmem
    · exact List.all_eq_true.1 hopening c hmem
    · exact hleft.inAlphabet hmem
    · decide
    · exact hright.inAlphabet hmem
    · exact List.all_eq_true.1 hclosing c hmem
  | fixed hnumber =>
    have hopening : "fixed[".toList.all Primitive.inAlphabet = true := by decide
    have hclosing : "]".toList.all Primitive.inAlphabet = true := by decide
    rw [fixedText, mem_bracketed] at hc
    rcases hc with hmem | hmem | hmem
    · exact List.all_eq_true.1 hopening c hmem
    · exact hnumber.inAlphabet hmem
    · exact List.all_eq_true.1 hclosing c hmem

/-- **The spellings in the form of a decimal type** have a number on each side of their comma. -/
theorem spelling_decimalText_iff {l r : List Char} {p : Primitive} :
    Spelling (decimalText l r) p ↔ ∃ precision scale, Number l precision.toNat ∧
      Number r scale.toNat ∧ p = decimal precision scale := by
  constructor
  · intro h
    generalize htext : decimalText l r = text at h
    cases h with
    | word h => exact absurd htext.symm (h.ne_bracketed (by decide))
    | @decimal l' r' precision scale hcomma hleft hright =>
      have hinner := bracketed_inj.1 htext.symm
      obtain ⟨rfl, -, rfl⟩ :=
        (List.append_cons_inj_of_notMem hcomma hright.comma_not_mem).1 hinner
      exact ⟨precision, scale, hleft, hright, rfl⟩
    | fixed _ => exact absurd htext.symm fixedText_ne_decimalText
  · rintro ⟨precision, scale, hleft, hright, rfl⟩
    exact .decimal hleft.comma_not_mem hleft hright

/-- **The spellings in the form of a fixed-length byte array** have a number in their brackets. -/
theorem spelling_fixedText_iff {cs : List Char} {p : Primitive} :
    Spelling (fixedText cs) p ↔ ∃ length, Number cs length.toNat ∧ p = fixed length := by
  constructor
  · intro h
    generalize htext : fixedText cs = text at h
    cases h with
    | word h => exact absurd htext.symm (h.ne_bracketed (by decide))
    | decimal _ _ _ => exact absurd htext fixedText_ne_decimalText
    | @fixed inner length hnumber =>
      obtain rfl := bracketed_inj.1 htext
      exact ⟨length, hnumber, rfl⟩
  · rintro ⟨length, hnumber, rfl⟩
    exact .fixed hnumber

/-- What stands behind the word of a decimal type begins with the bracket. -/
theorem Spelling.head?_of_decimal {text rest : List Char} {p : Primitive} (h : Spelling text p)
    (htext : text = "decimal".toList ++ rest) : rest.head? = some '(' := by
  cases h with
  | word h => exact absurd ⟨rest, htext.symm⟩ h.letters.2.1
  | decimal _ _ _ =>
    rw [decimalText_eq, List.append_right_inj] at htext
    rw [← htext]
    rfl
  | fixed _ =>
    have hhead : some 'f' = some 'd' := congrArg List.head? htext
    exact absurd hhead (by decide)

theorem Spelling.head?_of_fixed {text rest : List Char} {p : Primitive} (h : Spelling text p)
    (htext : text = "fixed".toList ++ rest) : rest.head? = some '[' := by
  cases h with
  | word h => exact absurd ⟨rest, htext.symm⟩ h.letters.2.2
  | decimal _ _ _ =>
    have hhead : some 'd' = some 'f' := congrArg List.head? htext
    exact absurd hhead (by decide)
  | fixed _ =>
    rw [fixedText_eq, List.append_right_inj] at htext
    rw [← htext]
    rfl

/-- The one comma of a spelling is that of a decimal type. -/
theorem Spelling.count_comma_le {text : List Char} {p : Primitive} (h : Spelling text p) :
    text.count ',' ≤ 1 := by
  cases h with
  | word h =>
    have hcomma := List.count_eq_zero_of_not_mem (h.not_mem (c := ',') (by decide))
    omega
  | decimal _ hleft hright =>
    have hl := List.count_eq_zero_of_not_mem hleft.comma_not_mem
    have hr := List.count_eq_zero_of_not_mem hright.comma_not_mem
    simp [decimalText, bracketed, hl, hr]
  | fixed hnumber =>
    have hcs := List.count_eq_zero_of_not_mem hnumber.comma_not_mem
    simp [fixedText, bracketed, hcs]

/-- **What the grammar keeps out.** -/
structure Strict (text : List Char) : Prop where
  /-- Nothing stands between a word and its bracket. -/
  decimal_bracket : ∀ rest, text = "decimal".toList ++ rest → rest.head? = some '('
  fixed_bracket : ∀ rest, text = "fixed".toList ++ rest → rest.head? = some '['
  /-- No number has a minus sign. -/
  no_minus : '-' ∉ text
  /-- There is no third number. -/
  one_comma : text.count ',' ≤ 1
  /-- No number is missing or too great for its word. -/
  decimal_fits : ∀ l r, text = decimalText l r → Fits UInt32.size l ∧ Fits UInt32.size r
  fixed_fits : ∀ cs, text = fixedText cs → Fits UInt64.size cs

/-- **Spellings are strict.** -/
theorem Spelling.strict {text : List Char} {p : Primitive} (h : Spelling text p) : Strict text where
  decimal_bracket _ htext := h.head?_of_decimal htext
  fixed_bracket _ htext := h.head?_of_fixed htext
  no_minus hmem := absurd (h.inAlphabet hmem) (by decide)
  one_comma := h.count_comma_le
  decimal_fits l r htext := by
    subst htext
    obtain ⟨precision, scale, hleft, hright, -⟩ := spelling_decimalText_iff.1 h
    exact ⟨hleft.fits precision.toNat_lt_size, hright.fits scale.toNat_lt_size⟩
  fixed_fits cs htext := by
    subst htext
    obtain ⟨length, hnumber, -⟩ := spelling_fixedText_iff.1 h
    exact hnumber.fits length.toNat_lt_size

/-! ## Reading -/

theorem enclosed?_eq_some_iff {opening closing : String} {cs inner : List Char} :
    enclosed? opening closing cs = some inner ↔ cs = bracketed opening closing inner := by
  rw [enclosed?, Option.bind_eq_some_iff]
  simp only [List.isPrefixOf?_eq_some_iff_append_eq, List.isSuffixOf?_eq_some_iff_append_eq]
  constructor
  · rintro ⟨rest, rfl, rfl⟩
    rw [bracketed, List.append_assoc]
  · rintro rfl
    exact ⟨inner ++ closing.toList, (List.append_assoc ..).symm, rfl⟩

/-- A decimal type is read from a number on each side of the first comma. -/
theorem decimalOf?_eq_some_iff {cs : List Char} {p : Primitive} :
    decimalOf? cs = some p ↔ ∃ l r precision scale, (cs = l ++ ',' :: r ∧ ',' ∉ l) ∧
      Number l precision.toNat ∧ Number r scale.toNat ∧ decimal precision scale = p := by
  simp only [number_iff, ← Numeral.readWord32?_eq_some_iff, ← atComma?_eq_some_iff]
  simp only [decimalOf?, Option.bind_eq_bind, Option.bind_eq_some_iff, Prod.exists, Option.pure_def,
    Option.some.injEq]
  constructor
  · rintro ⟨l, r, hcomma, precision, hleft, scale, hright, rfl⟩
    exact ⟨l, r, precision, scale, hcomma, hleft, hright, rfl⟩
  · rintro ⟨l, r, precision, scale, hcomma, hleft, hright, rfl⟩
    exact ⟨l, r, hcomma, precision, hleft, scale, hright, rfl⟩

theorem fixedOf?_eq_some_iff {cs : List Char} {p : Primitive} :
    fixedOf? cs = some p ↔ ∃ length, Number cs length.toNat ∧ fixed length = p := by
  simp only [fixedOf?, number_iff, ← Numeral.readWord64?_eq_some_iff, Option.map_eq_some_iff]

theorem lookup_words_eq_none {cs : List Char} (h : ∀ w p, Word w p → w.toList ≠ cs) :
    words.lookup (String.ofList cs) = none := by
  refine Option.eq_none_iff_forall_ne_some.2 fun p hp => ?_
  exact h (String.ofList cs) p (word_iff.2 hp) String.toList_ofList

/-- What is read has been spelled. -/
theorem spelling_of_ofFolded?_eq_some {cs : List Char} {p : Primitive} (h : ofFolded? cs = some p) :
    Spelling cs p := by
  simp only [ofFolded?, Option.orElse_eq_orElse, Option.orElse_eq_or, Option.or_eq_some_iff] at h
  rcases h with hword | ⟨-, hdecimal | ⟨-, hfixed⟩⟩
  · have hspelling := Spelling.word (word_iff.2 hword)
    rwa [String.toList_ofList] at hspelling
  · obtain ⟨inner, henclosed, hinner⟩ := Option.bind_eq_some_iff.1 hdecimal
    obtain rfl := enclosed?_eq_some_iff.1 henclosed
    obtain ⟨l, r, precision, scale, ⟨rfl, hcomma⟩, hleft, hright, rfl⟩ :=
      decimalOf?_eq_some_iff.1 hinner
    exact .decimal hcomma hleft hright
  · obtain ⟨inner, henclosed, hinner⟩ := Option.bind_eq_some_iff.1 hfixed
    obtain rfl := enclosed?_eq_some_iff.1 henclosed
    obtain ⟨length, hnumber, rfl⟩ := fixedOf?_eq_some_iff.1 hinner
    exact .fixed hnumber

/-- Every spelling is read: what is tried before its own form does not apply to it. -/
theorem Spelling.ofFolded?_eq_some {cs : List Char} {p : Primitive} (h : Spelling cs p) :
    ofFolded? cs = some p := by
  simp only [ofFolded?, Option.orElse_eq_orElse, Option.orElse_eq_or, Option.or_eq_some_iff]
  cases h with
  | word h =>
    left
    rw [String.ofList_toList]
    exact word_iff.1 h
  | @decimal l r precision scale hcomma hleft hright =>
    right
    refine ⟨lookup_words_eq_none fun w p h => h.ne_bracketed (by decide), .inl ?_⟩
    refine Option.bind_eq_some_iff.2 ⟨l ++ ',' :: r, enclosed?_eq_some_iff.2 rfl, ?_⟩
    exact decimalOf?_eq_some_iff.2 ⟨l, r, precision, scale, ⟨rfl, hcomma⟩, hleft, hright, rfl⟩
  | @fixed cs length hnumber =>
    right
    refine ⟨lookup_words_eq_none fun w p h => h.ne_bracketed (by decide), .inr ⟨?_, ?_⟩⟩
    · refine Option.bind_eq_none_iff.2 fun inner henclosed => ?_
      have hhead : some 'f' = some 'd' :=
        congrArg List.head? (enclosed?_eq_some_iff.1 henclosed)
      exact absurd hhead (by decide)
    · refine Option.bind_eq_some_iff.2 ⟨cs, enclosed?_eq_some_iff.2 rfl, ?_⟩
      exact fixedOf?_eq_some_iff.2 ⟨length, hnumber, rfl⟩

/-- **What is read from a trimmed and folded text is what it spells.** -/
theorem ofFolded?_eq_some_iff {cs : List Char} {p : Primitive} :
    ofFolded? cs = some p ↔ Spelling cs p :=
  ⟨spelling_of_ofFolded?_eq_some, fun h => h.ofFolded?_eq_some⟩

/-- What is read from a text is what its trimmed and folded form spells. -/
theorem read_eq_ok_iff_spelling {input : String} {p : Primitive} :
    read input = .ok p ↔ Spelling (folded input) p := by
  rw [read_eq_ok_iff, ofFolded?_eq_some_iff]

/-- **A leaf type is read from its spellings and from nothing else.**  Every text has one core that
neither begins nor ends with white space, and its letters made small decide: it is read as the type
that it spells, and a text that spells none is given back in the error as it came.  What is accepted
is strict. -/
theorem read_accepts (input : String) :
    ∃ core, (∀ other, Blank.Surrounds input.toList other ↔ other = core) ∧
      (∀ p, read input = .ok p ↔ Spelling (core.map Char.toLower) p) ∧
      (∀ e, read input = .error e ↔ (∀ p, ¬Spelling (core.map Char.toLower) p) ∧ e = ⟨input⟩) ∧
      ∀ p, read input = .ok p → Strict (core.map Char.toLower) := by
  refine ⟨Blank.trim input.toList, fun other => ?_, fun p => read_eq_ok_iff_spelling, fun e => ?_,
    fun p hp => (read_eq_ok_iff_spelling.1 hp).strict⟩
  · rw [Blank.surrounds_iff, eq_comm]
  · rw [read_eq_error_iff, Option.eq_none_iff_forall_ne_some]
    simp only [ne_eq, ofFolded?_eq_some_iff]
    rfl

/-- White space around the text and around each number, capitals, a plus sign and a zero in front:
all of it is spelled. -/
theorem read_accepts_padded :
    read "\u3000Decimal( +038 ,10)\n" = .ok (decimal 38 10) ∧
      Spelling "decimal( +038 ,10)".toList (decimal 38 10) ∧
      Strict "decimal( +038 ,10)".toList := by
  obtain ⟨core, hcore, hok, -, hstrict⟩ := read_accepts "\u3000Decimal( +038 ,10)\n"
  have hread : read "\u3000Decimal( +038 ,10)\n" = .ok (decimal 38 10) := by decide
  have htrim : "Decimal( +038 ,10)".toList = core :=
    (hcore _).1 (Blank.surrounds_iff.2 (by decide))
  subst htrim
  exact ⟨hread, (hok _).1 hread, hstrict _ hread⟩

end Primitive
end TableSchema
