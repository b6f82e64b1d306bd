/-!
# Unsigned decimal numerals

The written form of a length or a digit count: one or more of the digits `0` to `9`, with at
most one plus sign in front.  Zeros in front change nothing, and a value too great for its word
is refused.
-/

namespace TableSchema
namespace Numeral

/-- The digits of a numeral, without the plus sign that may stand in front. -/
def digits : List Char → List Char
  | '+' :: cs => cs
  | cs => cs

/-- The value of a numeral, if it is one and lies below `bound`. -/
def read? (bound : Nat) (cs : List Char) : Option Nat :=
  let ds := digits cs
  if ds ≠ [] ∧ ds.all Char.isDigit ∧ Nat.ofDigitChars 10 ds 0 < bound then
    some (Nat.ofDigitChars 10 ds 0)
  else none

/-- **A numeral has digits only, at least one, and a value below the bound.** -/
theorem read?_eq_some_iff {bound : Nat} {cs : List Char} {n : Nat} :
    read? bound cs = some n ↔
      digits cs ≠ [] ∧ (digits cs).all Char.isDigit ∧
        n = Nat.ofDigitChars 10 (digits cs) 0 ∧ n < bound := by
  simp only [read?]
  split
  · rename_i h
    constructor
    · intro e
      cases e
      exact ⟨h.1, h.2.1, rfl, h.2.2⟩
    · rintro ⟨-, -, rfl, -⟩
      rfl
  · rename_i h
    constructor
    · simp
    · rintro ⟨h₁, h₂, rfl, h₃⟩
      exact absurd ⟨h₁, h₂, h₃⟩ h

/-- **The written forms of a number**: digits that have it for their value, zeros in front or not,
and the same with a plus sign. -/
inductive Written : List Char → Nat → Prop
  | plain {ds : List Char} (ne_nil : ds ≠ []) (isDigit : ∀ c ∈ ds, c.isDigit) :
    Written ds (Nat.ofDigitChars 10 ds 0)
  | signed {ds : List Char} (ne_nil : ds ≠ []) (isDigit : ∀ c ∈ ds, c.isDigit) :
    Written ('+' :: ds) (Nat.ofDigitChars 10 ds 0)

/-- There is at least one digit in a numeral. -/
theorem Written.ne_nil {cs : List Char} {n : Nat} (h : Written cs n) : cs ≠ [] := by
  cases h with
  | plain hne _ => exact hne
  | signed _ _ => exact List.cons_ne_nil _ _

/-- There is nothing but digits and a plus sign in a numeral. -/
theorem Written.isDigit_or_eq {cs : List Char} {n : Nat} (h : Written cs n) {c : Char}
    (hc : c ∈ cs) : c.isDigit ∨ c = '+' := by
  cases h with
  | plain _ hdigits => exact .inl (hdigits c hc)
  | signed _ hdigits =>
    rcases List.mem_cons.1 hc with hplus | hmem
    · exact .inr hplus
    · exact .inl (hdigits c hmem)

/-- Digits have no plus sign in front. -/
theorem digits_eq_self {ds : List Char} (h : ∀ c ∈ ds, c.isDigit) : digits ds = ds := by
  cases ds with
  | nil => rfl
  | cons c ds =>
    have hc : c.isDigit = true := h c List.mem_cons_self
    have hplus : c ≠ '+' := by
      rintro rfl
      cases hc
    simp [digits, hplus]

/-- **A numeral is a written form of one number only.** -/
theorem Written.value_eq {cs : List Char} {n : Nat} (h : Written cs n) :
    n = Nat.ofDigitChars 10 (digits cs) 0 := by
  cases h with
  | plain _ hdigits => rw [digits_eq_self hdigits]
  | signed _ _ => rfl

/-- What is read as a number is a written form of it, and the number lies below the bound. -/
theorem read?_eq_some_iff_written {bound : Nat} {cs : List Char} {n : Nat} :
    read? bound cs = some n ↔ Written cs n ∧ n < bound := by
  rw [read?_eq_some_iff, List.all_eq_true]
  constructor
  · rintro ⟨hne, hdigits, rfl, hlt⟩
    refine ⟨?_, hlt⟩
    by_cases hplus : ∃ ds, cs = '+' :: ds
    · obtain ⟨ds, rfl⟩ := hplus
      exact .signed hne hdigits
    · have hself : digits cs = cs := by
        rw [digits]
        exact fun ds hcs => hplus ⟨ds, hcs⟩
      rw [hself] at hne hdigits ⊢
      exact .plain hne hdigits
  · rintro ⟨hwritten, hlt⟩
    cases hwritten with
    | plain hne hdigits =>
      rw [digits_eq_self hdigits]
      exact ⟨hne, hdigits, rfl, hlt⟩
    | signed hne hdigits => exact ⟨hne, hdigits, rfl, hlt⟩

/-- The value of a numeral that fits a word of 32 bits. -/
def readWord32? (cs : List Char) : Option UInt32 := (read? UInt32.size cs).map UInt32.ofNat

/-- The value of a numeral that fits a word of 64 bits. -/
def readWord64? (cs : List Char) : Option UInt64 := (read? UInt64.size cs).map UInt64.ofNat

/-- **A word is read from its written forms**, if it stands for the numbers below the bound. -/
theorem map_read?_eq_some_iff {bound : Nat} {α : Type} {ofNat : Nat → α} {toNat : α → Nat}
    (hofNat : ∀ n < bound, toNat (ofNat n) = n)
    (htoNat : ∀ w, toNat w < bound ∧ ofNat (toNat w) = w)
    {cs : List Char} {w : α} : (read? bound cs).map ofNat = some w ↔ Written cs (toNat w) := by
  rw [Option.map_eq_some_iff]
  simp only [read?_eq_some_iff_written]
  constructor
  · rintro ⟨n, ⟨hwritten, hlt⟩, rfl⟩
    rwa [hofNat n hlt]
  · intro hwritten
    exact ⟨toNat w, ⟨hwritten, (htoNat w).1⟩, (htoNat w).2⟩

theorem readWord32?_eq_some_iff {cs : List Char} {w : UInt32} :
    readWord32? cs = some w ↔ Written cs w.toNat :=
  map_read?_eq_some_iff (fun _ => UInt32.toNat_ofNat_of_lt')
    fun w => ⟨w.toNat_lt_size, UInt32.ofNat_toNat⟩

theorem readWord64?_eq_some_iff {cs : List Char} {w : UInt64} :
    readWord64? cs = some w ↔ Written cs w.toNat :=
  map_read?_eq_some_iff (fun _ => UInt64.toNat_ofNat_of_lt')
    fun w => ⟨w.toNat_lt_size, UInt64.ofNat_toNat⟩

/-- A number is written as its decimal digits. -/
theorem written_toDigits (n : Nat) : Written (Nat.toDigits 10 n) n := by
  have hdigits (c : Char) (hc : c ∈ Nat.toDigits 10 n) : c.isDigit = true :=
    Nat.isDigit_of_mem_toDigits (by decide) (by decide) hc
  have hwritten := Written.plain Nat.toDigits_ne_nil hdigits
  rwa [Nat.ofDigitChars_ten_toDigits] at hwritten

example : readWord32? ['+', '0', '9'] = some 9 := by decide
example : readWord32? ['+'] = none ∧ readWord32? ['-', '1'] = none := by decide
example : readWord32? "4294967295".toList = some 4294967295 := by decide
example : readWord32? "4294967296".toList = none := by decide

end Numeral
end TableSchema
