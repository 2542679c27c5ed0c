/-!
# Letters without regard to case

Two comparisons that ignore case.  `equalsIgnoringCase` knows the letters `A` to `Z` only.
`foldCase` is the folding of the standard restricted to what can meet a Latin letter: besides `A` to
`Z` it takes the long s (U+017F) to `s` and the Kelvin sign (U+212A) to `k`.
-/

namespace CodeListing.Text

/-- Whether two texts differ at most in the case of the letters `A` to `Z`. -/
def equalsIgnoringCase (a b : List Char) : Bool := a.map Char.toLower == b.map Char.toLower

/-- The small Latin letter that `c` stands for when case is ignored; other characters stand for
themselves. -/
def foldCase (c : Char) : Char :=
  if c = '\u017f' then 's' else if c = '\u212a' then 'k' else c.toLower

/-- Whether `c` stands for a Latin letter. -/
def isLatinLetter (c : Char) : Bool := (foldCase c).isLower

/-- Against a word in small letters only the other text has to be looked at. -/
theorem equalsIgnoringCase_iff {text word : List Char} (small : word.map Char.toLower = word) :
    equalsIgnoringCase text word = true ↔ text.map Char.toLower = word := by
  rw [equalsIgnoringCase, small, beq_iff_eq]

theorem toNat_toLower (c : Char) :
    c.toLower.toNat = if 65 ≤ c.toNat ∧ c.toNat ≤ 90 then c.toNat + 32 else c.toNat := by
  have upper : (c.val ≥ 'A'.val ∧ c.val ≤ 'Z'.val) ↔ 65 ≤ c.toNat ∧ c.toNat ≤ 90 := by
    simp only [ge_iff_le, UInt32.le_iff_toNat_le]
    exact Iff.rfl
  unfold Char.toLower
  by_cases capital : 65 ≤ c.toNat ∧ c.toNat ≤ 90
  · rw [dif_pos (upper.2 capital), if_pos capital]
    change (c.val + 32).toNat = c.val.toNat + 32
    have bound : c.val.toNat ≤ 90 := capital.2
    rw [UInt32.toNat_add]
    exact Nat.mod_eq_of_lt (by simp; omega)
  · rw [dif_neg (mt upper.1 capital), if_neg capital]

/-- Folding the case moves capitals, and the two signs that are letters in another shape. -/
theorem toNat_foldCase (c : Char) :
    (foldCase c).toNat = if c.toNat = 0x17F then 115 else if c.toNat = 0x212A then 107
      else if 65 ≤ c.toNat ∧ c.toNat ≤ 90 then c.toNat + 32 else c.toNat := by
  have long : c = '\u017f' ↔ c.toNat = 0x17F := Char.toNat_inj.symm
  have kelvin : c = '\u212a' ↔ c.toNat = 0x212A := Char.toNat_inj.symm
  unfold foldCase
  by_cases s : c.toNat = 0x17F
  · rw [if_pos (long.2 s), if_pos s]
    rfl
  · rw [if_neg (mt long.1 s), if_neg s]
    by_cases k : c.toNat = 0x212A
    · rw [if_pos (kelvin.2 k), if_pos k]
      rfl
    · rw [if_neg (mt kelvin.1 k), if_neg k, toNat_toLower]

theorem isLower_iff {c : Char} : c.isLower = true ↔ 97 ≤ c.toNat ∧ c.toNat ≤ 122 := by
  have bounds : c.isLower = (decide (97 ≤ c.val) && decide (c.val ≤ 122)) := rfl
  rw [bounds, Bool.and_eq_true, decide_eq_true_eq, decide_eq_true_eq, UInt32.le_iff_toNat_le,
    UInt32.le_iff_toNat_le]
  exact Iff.rfl

/-- The Latin letters in any case: those of ASCII, the long s, and the sign for kelvin. -/
theorem isLatinLetter_iff {c : Char} :
    isLatinLetter c = true ↔
      'A' ≤ c ∧ c ≤ 'Z' ∨ 'a' ≤ c ∧ c ≤ 'z' ∨ c = '\u017f' ∨ c = '\u212a' := by
  have le (a b : Char) : a ≤ b ↔ a.toNat ≤ b.toNat := UInt32.le_iff_toNat_le
  simp only [isLatinLetter, isLower_iff, toNat_foldCase, le, ← Char.toNat_inj]
  change _ ↔ 65 ≤ c.toNat ∧ c.toNat ≤ 90 ∨ 97 ≤ c.toNat ∧ c.toNat ≤ 122 ∨ c.toNat = 0x17F ∨
    c.toNat = 0x212A
  split
  · omega
  · split
    · omega
    · split <;> omega

/-- What is no letter has one case. -/
theorem eq_of_foldCase {c l : Char} (folded : foldCase c = l) (symbol : l.isLower = false) :
    c = l := by
  have numbers := toNat_foldCase c
  have other : ¬ (97 ≤ l.toNat ∧ l.toNat ≤ 122) := by
    rw [← isLower_iff, symbol]
    exact Bool.false_ne_true
  rw [folded] at numbers
  apply Char.toNat_inj.1
  split at numbers
  · omega
  · split at numbers
    · omega
    · split at numbers <;> omega

/-- The letters of ASCII other than s and k have no case beyond ASCII. -/
theorem toLower_of_foldCase {c l : Char} (folded : foldCase c = l) (ascii : l.toNat < 128)
    (other : l ≠ 's' ∧ l ≠ 'k') : c.toLower = l ∧ c.utf8Size = 1 := by
  have same : c.toLower = l := by
    unfold foldCase at folded
    split at folded
    · exact absurd folded.symm other.1
    · split at folded
      · exact absurd folded.symm other.2
      · exact folded
  have small : c.toNat ≤ 127 := by
    have lower := toNat_toLower c
    rw [same] at lower
    split at lower <;> omega
  exact ⟨same, Char.utf8Size_eq_one_iff.2 (UInt32.le_iff_toNat_le.2 small)⟩

end CodeListing.Text
