import Mathlib.Data.List.Basic
import Mathlib.Data.List.Induction
import CodeListing.Fence.Grammar
import CodeListing.Proofs.OutputBuffer
import CodeListing.Proofs.Utf8

/-!
# Numbers in decimal

`InDecimal` says which text is a number in decimal, without going through its digits; there is one
such text (`inDecimal_iff`).  It is written whether its digits find room in a space of bytes or not.

Another way to lay out the digits of a number, for comparison, is `laidOut?`: they are put into a
space of bytes from its end on, and the bytes from the first digit on are read as UTF-8.  Bytes that
no digit has been put into keep what they held before.  This comes to the same as laying the digits
out in front of each other (`laidOut?_eq`), and whatever the size of the space, `appendNumber` cannot
be told from the way that was taken (`appendNumber_decimal`).
-/

namespace CodeListing.OutputBuffer

open Text (bytes decimal digitsWithin fillDigits)

/-! ## Digits in a space of bytes -/

/-- Puts the digits of `n` in front of `place`, the last one first.  The place of the first digit is
given along with the space; there is none if the places run out before the digits. -/
def layOut? : (place : Nat) → (n : UInt64) → (space : List UInt8) → Option (Nat × List UInt8)
  | 0, _, _ => none
  | place + 1, n, space =>
    let space := space.set place ('0'.toUInt8 + (n % 10).toUInt8)
    if n / 10 = 0 then some (place, space) else layOut? place (n / 10) space

/-- The digits of `n` as they are read from the space that they are laid out in. -/
def laidOut? (space : List UInt8) (n : UInt64) : Option String :=
  (layOut? space.length n space).bind fun (first, space) =>
    String.fromUTF8? (space.drop first).toByteArray

/-- The text is a numeral of `n` without a zero in front of its other digits. -/
structure InDecimal (text : List Char) (n : UInt64) : Prop where
  numeral : Fence.Numeral text n
  short : text.head? = some '0' → text = ['0']

/-! ## The one text of a number -/

/-- A number does not begin with a zero if there is more to come. -/
theorem head_toDigits (n : Nat) (zero : (Nat.toDigits 10 n).head? = some '0') : n = 0 := by
  induction n using Nat.strongRecOn with
  | ind n ih =>
    by_cases single : n < 10
    · rw [Nat.toDigits_of_lt_base single, List.head?_cons, Option.some_inj] at zero
      have code := congrArg Char.toNat zero
      rw [Nat.toNat_digitChar_of_lt_ten single] at code
      have : '0'.toNat = 48 := rfl
      omega
    · have front : (Nat.toDigits 10 n).head? = (Nat.toDigits 10 (n / 10)).head? := by
        rw [Nat.toDigits_of_base_le (by decide) (by omega),
          List.head?_append_of_ne_nil _ Nat.toDigits_ne_nil]
      have none := ih (n / 10) (by omega) (front ▸ zero)
      omega

/-- The digits of a number are a numeral of it, and they begin with a zero only if that is all. -/
theorem inDecimal_decimal (n : UInt64) : InDecimal (decimal n).toList n := by
  obtain ⟨nonempty, digits, value⟩ := Text.readDecimal_eq_some_iff.1 (Text.readDecimal_decimal n)
  refine ⟨⟨nonempty, List.all_eq_true.1 digits, value⟩, fun zero => ?_⟩
  rw [Text.toList_decimal] at zero ⊢
  rw [head_toDigits _ zero]
  rfl

theorem exists_digit {c : Char} (digit : c.isDigit = true) :
    ∃ n < 10, c = n.digitChar ∧ c.toNat - '0'.toNat = n := by
  obtain ⟨low, high⟩ := Char.isDigit_iff_toNat.1 digit
  have zero : '0'.toNat = 48 := rfl
  have nine : '9'.toNat = 57 := rfl
  refine ⟨c.toNat - '0'.toNat, by omega, ?_, rfl⟩
  rw [← Char.toNat_inj, Nat.toNat_digitChar_of_lt_ten (by omega)]
  omega

/-- Digits that do not begin with a zero are those of their value.  The last of them is its last
digit, and the others are those of a tenth of it. -/
theorem toDigits_ofDigitChars {text : List Char} (nonempty : text ≠ [])
    (digits : ∀ c ∈ text, c.isDigit = true) (short : text.head? = some '0' → text = ['0']) :
    Nat.toDigits 10 (Nat.ofDigitChars 10 text 0) = text := by
  induction text using List.reverseRecOn with
  | nil => exact absurd rfl nonempty
  | append_singleton front last ih =>
    obtain ⟨inFront, isLast⟩ := List.forall_mem_append.1 digits
    obtain ⟨n, small, rfl, digit⟩ := exists_digit (isLast last List.mem_cons_self)
    have value : Nat.ofDigitChars 10 (front ++ [n.digitChar]) 0 =
        10 * Nat.ofDigitChars 10 front 0 + n := by
      rw [Nat.ofDigitChars_append, Nat.ofDigitChars_cons, digit]
      rfl
    rw [value]
    by_cases single : front = []
    · subst single
      have nothing : Nat.ofDigitChars 10 [] 0 = 0 := rfl
      rw [nothing, Nat.mul_zero, Nat.zero_add, Nat.toDigits_of_lt_base small, List.nil_append]
    · have noZero : front.head? ≠ some '0' := by
        intro zero
        have whole : (front ++ [n.digitChar]).head? = some '0' := by
          rw [List.head?_append_of_ne_nil front single, zero]
        have one := congrArg List.length (short whole)
        rw [List.length_append, List.length_singleton, List.length_singleton] at one
        exact single (List.length_eq_zero_iff.1 (by omega))
      have tenth := ih single inFront fun zero => absurd zero noZero
      -- Nothing but the digit 0 is written for 0.
      have positive : 0 < Nat.ofDigitChars 10 front 0 := by
        apply Nat.pos_of_ne_zero
        intro zero
        rw [zero] at tenth
        exact noZero (tenth ▸ rfl)
      rw [← Nat.toDigits_append_toDigits (by decide) positive small, tenth,
        Nat.toDigits_of_lt_base small]

/-- A number has one text in decimal. -/
theorem inDecimal_iff {text : List Char} {n : UInt64} :
    InDecimal text n ↔ text = (decimal n).toList := by
  constructor
  · rintro ⟨⟨nonempty, digits, value⟩, short⟩
    rw [Text.toList_decimal, ← value, toDigits_ofDigitChars nonempty digits short]
  · rintro rfl
    exact inDecimal_decimal n

/-! ## Digits from the end of a space -/

/-- The byte of the last digit, worked out in 8 bits, is that of its character. -/
theorem digit_toUInt8 (n : UInt64) :
    '0'.toUInt8 + (n % 10).toUInt8 = (n.toNat % 10).digitChar.toUInt8 := by
  have small : n.toNat % 10 < 10 := Nat.mod_lt _ (by decide)
  have byte : (n.toNat % 10).digitChar.toUInt8.toNat = 48 + n.toNat % 10 := by
    rw [← Nat.toNat_digitChar_of_lt_ten small]
    apply Nat.mod_eq_of_lt
    rw [← Char.toNat, Nat.toNat_digitChar_of_lt_ten small]
    omega
  have zero : '0'.toUInt8.toNat = 48 := rfl
  have ten : (10 : UInt64).toNat = 10 := rfl
  rw [← UInt8.toNat_inj, byte, UInt8.toNat_add, UInt64.toNat_toUInt8, UInt64.toNat_mod, zero, ten]
  omega

theorem bytes_digit {n : Nat} (digit : n < 10) (written : List Char) :
    bytes (n.digitChar :: written) = n.digitChar.toUInt8 :: bytes written := by
  rw [Text.bytes_cons, Text.utf8EncodeChar_of_ascii, List.singleton_append]
  rw [Nat.toNat_digitChar_of_lt_ten digit]
  omega

/-- What stands in the space from the first digit on is the bytes of the digits, if the bytes of
those already written stand behind the place. -/
theorem layOut?_eq {place : Nat} {n : UInt64} {space : List UInt8} {written : List Char}
    (within : place ≤ space.length) (behind : space.drop place = bytes written) :
    (layOut? place n space).map (fun (first, space) => space.drop first) =
      (fillDigits place n.toNat written).map bytes := by
  induction place generalizing n space written with
  | zero => rfl
  | succ place ih =>
    let laid := space.set place ('0'.toUInt8 + (n % 10).toUInt8)
    have within' : place < laid.length := by
      rw [List.length_set]
      omega
    have behind' : laid.drop place = bytes ((n.toNat % 10).digitChar :: written) := by
      rw [List.drop_eq_getElem_cons within', List.getElem_set_self, List.drop_set_of_lt (by omega),
        behind, bytes_digit (by omega), digit_toUInt8]
    have last : n / 10 = 0 ↔ n.toNat / 10 = 0 := by
      rw [← UInt64.toNat_inj, UInt64.toNat_div]
      rfl
    rw [layOut?, fillDigits]
    dsimp only
    by_cases done : n / 10 = 0
    · rw [if_pos done, if_pos (last.1 done), Option.map_some, Option.map_some, behind']
    · rw [if_neg done, if_neg (mt last.2 done), ih (Nat.le_of_lt within') behind', UInt64.toNat_div]
      rfl

/-- Digits laid out as bytes come to the same as digits laid out as characters. -/
theorem laidOut?_eq (space : List UInt8) (n : UInt64) :
    laidOut? space n = digitsWithin space.length n := by
  have none : space.drop space.length = bytes [] := List.drop_length
  have laid := layOut?_eq (n := n) (Nat.le_refl _) none
  have read := congrArg (Option.bind · fun laid => String.fromUTF8? laid.toByteArray) laid
  simp only [Option.bind_map, Function.comp_def, Text.fromUTF8?_bytes] at read
  rw [laidOut?, read, digitsWithin, Option.map_eq_bind]
  rfl

/-- Digits are laid out exactly if the space is large enough for them. -/
theorem laidOut?_eq_some_iff {space : List UInt8} {n : UInt64} {text : String} :
    laidOut? space n = some text ↔ text = decimal n ∧ (decimal n).length ≤ space.length := by
  rw [laidOut?_eq, Text.digitsWithin_eq, Option.ite_none_right_eq_some, Option.some_inj, eq_comm,
    and_comm]

/-- Digits are refused exactly if the space is too small for them. -/
theorem laidOut?_eq_none_iff {space : List UInt8} {n : UInt64} :
    laidOut? space n = none ↔ space.length < (decimal n).length := by
  rw [laidOut?_eq, Text.digitsWithin_eq]
  simp

/-! ## Numbers as they are written -/

/-- **Every number is written in decimal.**  There is one text that a number is in decimal.  Laid out
from the end of a space of any size, whatever the space held before, the digits are that text, or
else they are too many for the space; and a buffer comes to the same either way, for this space and
every other. -/
theorem appendNumber_decimal (n : UInt64) :
    (∀ text, InDecimal text n ↔ text = (decimal n).toList) ∧
    (∀ space, (∀ text, laidOut? space n = some text ↔
        text = decimal n ∧ (decimal n).length ≤ space.length) ∧
      (laidOut? space n = none ↔ space.length < (decimal n).length) ∧
      digitsWithin space.length n = laidOut? space n ∧
      ∀ b : OutputBuffer,
        (laidOut? space n).elim (b.append (decimal n)) b.append = b.appendNumber n) ∧
    ∀ written, appendNumber ⟨some written⟩ n = .ok ⟨some (written ++ decimal n)⟩ := by
  refine ⟨fun text => inDecimal_iff, fun space => ⟨fun text => laidOut?_eq_some_iff,
    laidOut?_eq_none_iff, (laidOut?_eq space n).symm, fun b => ?_⟩, fun written => ?_⟩
  · rw [laidOut?_eq, elim_digitsWithin, appendNumber_eq]
  · rw [appendNumber_eq, append_bound]

/-- The digits of the one fill the space, and those of the other are one too many. -/
example : digitsWithin digitSpace 999999 = some "999999" ∧ digitsWithin digitSpace 1000000 = none ∧
    digitsWithin 0 0 = none ∧ laidOut? [7, 7, 7] 0 = some "0" := by
  decide +kernel

end CodeListing.OutputBuffer
