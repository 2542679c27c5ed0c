/-!
# Occurrences of a word in a text

A word may be asked for (`occursIn`), left out (`eraseAll`) or replaced (`replaceAll`).  Occurrences
are found from left to right and do not overlap.
-/

namespace CodeListing.Text

/-- Whether `text` contains `word`. -/
def occursIn (word : List Char) : (text : List Char) → Bool
  | [] => word.isEmpty
  | c :: text => word.isPrefixOf (c :: text) || occursIn word text

/-- A word occurs in a text if it is a part of it without gaps. -/
theorem occursIn_iff {word text : List Char} :
    occursIn word text = true ↔ word <:+: text := by
  induction text with
  | nil => rw [occursIn, List.isEmpty_iff, List.infix_nil]
  | cons c text ih =>
    rw [occursIn, Bool.or_eq_true, ih, List.isPrefixOf_iff_prefix, List.infix_cons_iff]

/-- The text without the occurrences of `word`, which are found from left to right and do not
overlap.  An empty word occurs nowhere. -/
def eraseAll (word : List Char) : (text : List Char) → List Char
  | [] => []
  | c :: text =>
    if !word.isEmpty && word.isPrefixOf (c :: text) then
      eraseAll word (text.drop (word.length - 1))
    else
      c :: eraseAll word text
termination_by text => text.length

/-- Leaving out a word leaves the other characters in their order. -/
theorem eraseAll_sublist (word text : List Char) : (eraseAll word text).Sublist text := by
  fun_induction eraseAll word text with
  | case1 => exact .slnil
  | case2 c text _ ih => exact (ih.trans (List.drop_sublist _ text)).cons c
  | case3 c text _ ih => exact ih.cons_cons c

/-- Characters that the word does not have are kept. -/
theorem filter_eraseAll {keep : Char → Bool} (none : ∀ c ∈ word, keep c = false)
    (text : List Char) : (eraseAll word text).filter keep = text.filter keep := by
  fun_induction eraseAll word text with
  | case1 => rfl
  | case2 c text found ih =>
    rw [Bool.and_eq_true, List.isPrefixOf_iff_prefix] at found
    obtain ⟨some, behind, same⟩ := found
    rcases word with _ | ⟨d, word⟩
    · cases some
    · have tail : text = word ++ behind := (List.cons.inj same).2.symm
      have whole : (d :: word).filter keep = [] := List.filter_eq_nil_iff.2 (by simpa using none)
      rw [ih, ← same, List.filter_append, whole, tail, List.length_cons, Nat.add_sub_cancel,
        List.drop_left, List.nil_append]
  | case3 c text _ ih => rw [List.filter_cons, List.filter_cons, ih]

/-- The text with `other` in place of every occurrence of `word`.  Occurrences are found from left
to right and do not overlap; an empty word occurs nowhere. -/
def replaceAll (word other : List Char) : (text : List Char) → List Char
  | [] => []
  | c :: text =>
    if !word.isEmpty && word.isPrefixOf (c :: text) then
      other ++ replaceAll word other (text.drop (word.length - 1))
    else
      c :: replaceAll word other text
termination_by text => text.length

end CodeListing.Text
