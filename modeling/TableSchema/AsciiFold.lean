/-!
# Case folding

Names are compared either as written or up to the case of the letters `A` to `Z`.  Every other
character, accented letters included, stands for itself under both.
-/

namespace TableSchema

/-- The text with each of the letters `A` to `Z` made small and all else as it is. -/
def asciiFold (s : String) : String := s.map Char.toLower

@[simp] theorem toList_asciiFold (s : String) :
    (asciiFold s).toList = s.toList.map Char.toLower := by
  simp [asciiFold]

/-- Two texts have one folded form if they differ in the case of letters only. -/
theorem asciiFold_inj {s t : String} :
    asciiFold s = asciiFold t ↔ s.toList.map Char.toLower = t.toList.map Char.toLower := by
  rw [← String.toList_inj, toList_asciiFold, toList_asciiFold]

/-- What is no capital is left alone by folding. -/
theorem toLower_eq_self {c : Char} (hc : c.isUpper = false) : c.toLower = c :=
  dif_neg (of_decide_eq_false hc)

/-- **Folding makes nothing but small letters**, and those of capitals: any other character is what
it was before. -/
theorem toLower_eq_iff {c d : Char} (hc : c.isAlpha = false) : d.toLower = c ↔ d = c := by
  obtain ⟨hupper, hlower⟩ := Bool.or_eq_false_iff.1 hc
  have hcapital : ¬('A'.val ≤ c.val ∧ c.val ≤ 'Z'.val) := of_decide_eq_false hupper
  have hsmall : ¬('a'.val ≤ c.val ∧ c.val ≤ 'z'.val) := by
    intro ⟨hle, hle'⟩
    have htrue : c.isLower = true :=
      Bool.and_eq_true_iff.2 ⟨decide_eq_true hle, decide_eq_true hle'⟩
    exact Bool.false_ne_true (hlower.symm.trans htrue)
  by_cases hd : 'A'.val ≤ d.val ∧ d.val ≤ 'Z'.val
  · -- Neither a capital nor its small form is `c`, which is no letter.
    have hval : d.toLower.val = d.val + ('a'.val - 'A'.val) := congrArg Char.val (dif_pos hd)
    constructor
    · rintro rfl
      grind
    · rintro rfl
      exact absurd hd hcapital
  · have hsame : d.toLower = d := dif_neg hd
    rw [hsame]

theorem isUpper_iff_toNat {c : Char} : c.isUpper ↔ 65 ≤ c.toNat ∧ c.toNat ≤ 90 :=
  decide_eq_true_iff.trans (and_congr UInt32.le_iff_toNat_le UInt32.le_iff_toNat_le)

theorem isLower_iff_toNat {c : Char} : c.isLower ↔ 97 ≤ c.toNat ∧ c.toNat ≤ 122 :=
  Bool.and_eq_true_iff.trans (and_congr (decide_eq_true_iff.trans UInt32.le_iff_toNat_le)
    (decide_eq_true_iff.trans UInt32.le_iff_toNat_le))

/-- **Letters stand in two blocks** of code points. -/
theorem isAlpha_iff_toNat {c : Char} :
    c.isAlpha ↔ (65 ≤ c.toNat ∧ c.toNat ≤ 90) ∨ (97 ≤ c.toNat ∧ c.toNat ≤ 122) :=
  Bool.or_eq_true_iff.trans (or_congr isUpper_iff_toNat isLower_iff_toNat)

/-- Letters are characters of ASCII. -/
theorem toNat_lt_of_isAlpha {c : Char} (hc : c.isAlpha = true) : c.toNat < 128 := by
  have hblocks := isAlpha_iff_toNat.1 hc
  omega

/-- What is no letter stands in the folded text just where it stands in the text. -/
theorem getElem?_asciiFold_eq_some_iff {s : String} {i : Nat} {c : Char} (hc : c.isAlpha = false) :
    (asciiFold s).toList[i]? = some c ↔ s.toList[i]? = some c := by
  rw [toList_asciiFold, List.getElem?_map, Option.map_eq_some_iff]
  simp only [toLower_eq_iff hc, exists_eq_right]

/-- How names are compared. -/
inductive NameCase where
  /-- Character by character. -/
  | asWritten
  /-- With the letters `A` to `Z` made small on both sides. -/
  | folded
  deriving DecidableEq

namespace NameCase

/-- The form of a name under which it is compared. -/
def key : NameCase → String → String
  | asWritten, s => s
  | folded, s => asciiFold s

@[simp] theorem key_asWritten (s : String) : asWritten.key s = s := rfl

@[simp] theorem key_folded (s : String) : folded.key s = asciiFold s := rfl

end NameCase
end TableSchema
