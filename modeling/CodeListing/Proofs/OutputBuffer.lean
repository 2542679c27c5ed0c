import CodeListing.OutputBuffer

/-!
# What is written into an output buffer

A buffer with a destination accepts everything, and what it accepts stands behind what it held
before: markup as `Markup.toText` writes it, numbers in decimal whichever way their digits are laid
out.
-/

namespace CodeListing

open Markup

/-! ## Digits in a limited space -/

namespace Text

/-- Digits are laid out in a space exactly if they find room in it. -/
theorem fillDigits_eq (room n : Nat) (written : List Char) :
    fillDigits room n written =
      if (Nat.toDigits 10 n).length ≤ room then some (Nat.toDigits 10 n ++ written) else none := by
  induction room generalizing n written with
  | zero =>
    have : 0 < (Nat.toDigits 10 n).length := Nat.length_toDigits_pos
    rw [fillDigits, if_neg (by omega)]
  | succ room ih =>
    rw [fillDigits]
    by_cases h : n < 10
    · have last : n / 10 = 0 := by omega
      rw [if_pos last, Nat.toDigits_of_lt_base h, Nat.mod_eq_of_lt h]
      simp
    · have more : n / 10 ≠ 0 := by omega
      have split : Nat.toDigits 10 n = Nat.toDigits 10 (n / 10) ++ [(n % 10).digitChar] :=
        Nat.toDigits_of_base_le (by decide) (by omega)
      rw [if_neg more, ih, split]
      simp

theorem digitsWithin_eq (room : Nat) (n : UInt64) :
    digitsWithin room n = if (decimal n).length ≤ room then some (decimal n) else none := by
  rw [digitsWithin, fillDigits_eq, ← String.length_toList, toList_decimal]
  split
  · rw [Option.map_some, List.append_nil, ← toList_decimal, String.ofList_toList]
  · rfl

end Text

/-! ## Markup as text -/

namespace Markup

@[simp]
theorem toText_nil : toText [] = "" := rfl

@[simp]
theorem toText_cons (p : Piece) (markup : List Piece) :
    toText (p :: markup) = p.toText ++ toText markup := by
  simp [toText]

@[simp]
theorem toText_append (a b : List Piece) : toText (a ++ b) = toText a ++ toText b := by
  simp [toText]

end Markup

/-! ## Writing numbers -/

namespace OutputBuffer

/-- Digits that find no room are the ones that would have been laid out. -/
theorem elim_digitsWithin (room : Nat) (n : UInt64) (b : OutputBuffer) :
    (Text.digitsWithin room n).elim (b.append (Text.decimal n)) b.append =
      b.append (Text.decimal n) := by
  rw [Text.digitsWithin_eq]
  split <;> rfl

/-- Whether its digits find room in the space or not, a number is written in decimal. -/
theorem appendNumber_eq (b : OutputBuffer) (n : UInt64) :
    b.appendNumber n = b.append (Text.decimal n) := by
  rw [← elim_digitsWithin digitSpace n b, appendNumber]
  cases Text.digitsWithin digitSpace n <;> rfl

end OutputBuffer

/-! ## Writing with a destination -/

theorem ok_bind {ε α β : Type} (a : α) (f : α → Except ε β) : (Except.ok a >>= f) = f a := rfl

namespace OutputBuffer

variable {text : String}

@[simp]
theorem contents_bound : contents ⟨some text⟩ = .ok text := rfl

@[simp]
theorem flush_bound : flush ⟨some text⟩ = .ok () := rfl

@[simp]
theorem append_bound (more : String) : append ⟨some text⟩ more = .ok ⟨some (text ++ more)⟩ := rfl

@[simp]
theorem appendNumber_bound (n : UInt64) :
    appendNumber ⟨some text⟩ n = .ok ⟨some (text ++ Text.decimal n)⟩ := by
  rw [appendNumber_eq, append_bound]

@[simp]
theorem appendValue_bound (v : Value) :
    appendValue ⟨some text⟩ v = .ok ⟨some (text ++ v.toText)⟩ := by
  cases v <;> rfl

/-- With a destination attributes are written one after the other, without fail. -/
theorem appendAttributes_bound (attributes : List (String × Value)) :
    appendAttributes ⟨some text⟩ attributes =
      .ok ⟨some
        (text ++ String.join (attributes.map fun (name, value) => attributeText name value))⟩ := by
  induction attributes generalizing text with
  | nil => simp [appendAttributes]
  | cons first attributes ih =>
    obtain ⟨name, value⟩ := first
    simp only [appendAttributes, append_bound, appendValue_bound, ok_bind, ih]
    simp [attributeText, String.append_assoc]

/-- With a destination a piece of markup is written as its text, without fail. -/
theorem appendPiece_bound (p : Piece) :
    appendPiece ⟨some text⟩ p = .ok ⟨some (text ++ p.toText)⟩ := by
  cases p with
  | openTag name attributes =>
    simp only [appendPiece, append_bound, appendAttributes_bound, ok_bind]
    simp [Piece.toText, String.append_assoc]
  | closeTag name => rfl
  | literal content => rfl
  | text content => rfl
  | number n => exact appendNumber_bound n

/-- Markup stands behind the text of the destination as it is written by itself. -/
theorem appendMarkup_bound (markup : List Piece) :
    appendMarkup ⟨some text⟩ markup = .ok ⟨some (text ++ toText markup)⟩ := by
  induction markup generalizing text with
  | nil => simp [appendMarkup]
  | cons p markup ih =>
    simp only [appendMarkup, appendPiece_bound, ok_bind, ih]
    simp [String.append_assoc]

end OutputBuffer

end CodeListing
