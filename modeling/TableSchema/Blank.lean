import TableSchema.AsciiFold

/-!
# White space

The characters with the Unicode property `White_Space`, and the removal of such characters from both
ends of a text.  The statements say what is left after trimming: a text that neither begins nor ends
with white space is left alone, and white space put around it is removed again.
-/

namespace TableSchema
namespace Blank

/-- The code points with the property `White_Space`, as ranges with both ends included. -/
def ranges : List (Nat × Nat) :=
  [(0x0009, 0x000D), (0x0020, 0x0020), (0x0085, 0x0085), (0x00A0, 0x00A0), (0x1680, 0x1680),
    (0x2000, 0x200A), (0x2028, 0x2029), (0x202F, 0x202F), (0x205F, 0x205F), (0x3000, 0x3000)]

/-- Whether a character is white space. -/
def isBlank (c : Char) : Bool := ranges.any fun r => r.1 ≤ c.toNat && c.toNat ≤ r.2

example : (ranges.map fun r => r.2 + 1 - r.1).sum = 25 := by decide

/-- The white space of ASCII control characters and the blank itself is among it. -/
theorem isBlank_of_isWhitespace {c : Char} (h : c.isWhitespace) : isBlank c := by
  simp only [Char.isWhitespace, Bool.or_eq_true, decide_eq_true_eq] at h
  rcases h with ((rfl | rfl) | rfl) | rfl <;> decide

/-- White space stands apart from the code points of digits and letters. -/
theorem isBlank_eq_false_of_toNat {c : Char} (h : 48 ≤ c.toNat ∧ c.toNat ≤ 122) :
    isBlank c = false := by
  simp only [isBlank, ranges, List.any_cons, List.any_nil, Bool.or_eq_false_iff,
    Bool.and_eq_false_iff, decide_eq_false_iff_not, and_true]
  omega

theorem isBlank_eq_false_of_isAlpha {c : Char} (h : c.isAlpha) : isBlank c = false := by
  have hblocks := isAlpha_iff_toNat.1 h
  exact isBlank_eq_false_of_toNat (by omega)

theorem isBlank_eq_false_of_isDigit {c : Char} (h : c.isDigit) : isBlank c = false := by
  have hblock : 48 ≤ c.toNat ∧ c.toNat ≤ 57 := Char.isDigit_iff_toNat.1 h
  exact isBlank_eq_false_of_toNat (by omega)

/-- What is left of `cs` without the white space at its beginning. -/
def trimLeft (cs : List Char) : List Char := cs.dropWhile isBlank

/-- What is left of `cs` without the white space at both its ends. -/
def trim (cs : List Char) : List Char := (trimLeft (trimLeft cs).reverse).reverse

@[simp] theorem trim_nil : trim [] = [] := rfl

/-- White space in front is dropped. -/
theorem trimLeft_append {ws : List Char} (h : ∀ c ∈ ws, isBlank c) (cs : List Char) :
    trimLeft (ws ++ cs) = trimLeft cs := by
  induction ws with
  | nil => rfl
  | cons w ws ih =>
    have hw : isBlank w = true := h w (by simp)
    simpa [trimLeft, List.dropWhile_cons, hw] using ih fun c hc => h c (by simp [hc])

/-- A text that does not begin with white space keeps its beginning. -/
theorem trimLeft_eq_self {cs : List Char} (h : ∀ c ∈ cs.head?, isBlank c = false) :
    trimLeft cs = cs := by
  cases cs with
  | nil => rfl
  | cons c cs => simp [trimLeft, h c (by simp)]

/-- White space behind a text is dropped if there is nothing else in it, and else it stays there. -/
theorem trimLeft_append_right {ws : List Char} (h : ∀ c ∈ ws, isBlank c) (cs : List Char) :
    trimLeft (cs ++ ws) = if trimLeft cs = [] then [] else trimLeft cs ++ ws := by
  have hws : trimLeft ws = [] := by
    have hdrop := trimLeft_append h []
    rwa [List.append_nil] at hdrop
  rw [trimLeft, List.dropWhile_append]
  change (if (trimLeft cs).isEmpty then trimLeft ws else trimLeft cs ++ ws) = _
  simp only [List.isEmpty_iff, hws]

/-- **White space around a text makes no difference.** -/
theorem trim_append {before after : List Char} (hbefore : ∀ c ∈ before, isBlank c)
    (hafter : ∀ c ∈ after, isBlank c) (cs : List Char) :
    trim (before ++ cs ++ after) = trim cs := by
  have hreverse : ∀ c ∈ after.reverse, isBlank c := by simpa using hafter
  rw [trim, trim, List.append_assoc, trimLeft_append hbefore, trimLeft_append_right hafter]
  split
  · rename_i hnil
    rw [hnil]
  · rw [List.reverse_append, trimLeft_append hreverse]

/-- **A text with nothing but white space around its core**, and a core that neither begins nor ends
with white space. -/
structure Surrounds (cs core : List Char) : Prop where
  /-- What is around the core is white space. -/
  around : ∃ before after, cs = before ++ core ++ after ∧ (∀ c ∈ before, isBlank c) ∧
    ∀ c ∈ after, isBlank c
  head : ∀ c ∈ core.head?, isBlank c = false
  last : ∀ c ∈ core.getLast?, isBlank c = false

/-- A text that neither begins nor ends with white space is left alone. -/
theorem trim_eq_self {cs : List Char} (hhead : ∀ c ∈ cs.head?, isBlank c = false)
    (hlast : ∀ c ∈ cs.getLast?, isBlank c = false) : trim cs = cs := by
  have hreverse : ∀ c ∈ cs.reverse.head?, isBlank c = false := by simpa using hlast
  rw [trim, trimLeft_eq_self hhead, trimLeft_eq_self hreverse, List.reverse_reverse]

/-- The first and the last character decide whether a text is left alone. -/
theorem trim_eq_self_of_ends {cs : List Char} {first last : Char} (hhead : cs.head? = some first)
    (hlast : cs.getLast? = some last) (hfirst : isBlank first = false)
    (hend : isBlank last = false) : trim cs = cs := by
  refine trim_eq_self (fun c hc => ?_) fun c hc => ?_
  · rw [hhead] at hc
    cases hc
    exact hfirst
  · rw [hlast] at hc
    cases hc
    exact hend

/-- What is dropped in front is white space, and what is left does not begin with any. -/
theorem exists_trimLeft (cs : List Char) :
    (∃ before, cs = before ++ trimLeft cs ∧ ∀ c ∈ before, isBlank c) ∧
      ∀ c ∈ (trimLeft cs).head?, isBlank c = false := by
  constructor
  · refine ⟨cs.takeWhile isBlank, List.takeWhile_append_dropWhile.symm, fun c hc => ?_⟩
    exact List.all_eq_true.1 List.all_takeWhile c hc
  · intro c hc
    have hhead := List.head?_dropWhile_not isBlank cs
    rw [← trimLeft, hc] at hhead
    exact hhead

/-- **Trimming finds the core of a text**, which is the only one that it has. -/
theorem surrounds_iff {cs core : List Char} : Surrounds cs core ↔ trim cs = core := by
  constructor
  · rintro ⟨⟨before, after, rfl, hbefore, hafter⟩, hhead, hlast⟩
    rw [trim_append hbefore hafter, trim_eq_self hhead hlast]
  · rintro rfl
    obtain ⟨⟨before, hcs, hbefore⟩, hhead⟩ := exists_trimLeft cs
    obtain ⟨⟨after, hrest, hafter⟩, hlast⟩ := exists_trimLeft (trimLeft cs).reverse
    have hsplit : trimLeft cs = trim cs ++ after.reverse := by
      rw [trim, ← List.reverse_append, ← hrest, List.reverse_reverse]
    refine ⟨⟨before, after.reverse, ?_, hbefore, by simpa using hafter⟩, fun c hc => ?_, ?_⟩
    · rw [List.append_assoc, ← hsplit, ← hcs]
    · refine hhead c ?_
      rw [hsplit, List.head?_append, hc]
      rfl
    · rwa [trim, List.getLast?_reverse]

end Blank
end TableSchema
