/-!
# Numerals

Line numbers are 64-bit words.  `readDecimal` reads one from digits, `decimal` writes one, and
`digitsWithin` writes one into a space of a given size.  Reading what was written gives the number
back (`readDecimal_decimal`).  The shares of colors and the numbers of characters are hexadecimal.
-/

namespace CodeListing.Text

/-! ## Numbers of 64 bits in decimal -/

/-- The number written by the digits `0` to `9` of `cs`, leading zeros allowed.  There is none if
`cs` is empty, holds another character, or writes a number that needs more than 64 bits. -/
def readDecimal (cs : List Char) : Option UInt64 :=
  if h : cs ≠ [] ∧ cs.all Char.isDigit = true ∧ Nat.ofDigitChars 10 cs 0 < UInt64.size then
    some (UInt64.ofNatLT (Nat.ofDigitChars 10 cs 0) h.2.2)
  else
    none

/-- The decimal digits of `n`, without leading zeros. -/
def decimal (n : UInt64) : String := n.toNat.repr

/-- The digits of `n` in front of those already `written`, taking one place of `room` for each. -/
def fillDigits : (room n : Nat) → (written : List Char) → Option (List Char)
  | 0, _, _ => none
  | room + 1, n, written =>
    let written := (n % 10).digitChar :: written
    if n / 10 = 0 then some written else fillDigits room (n / 10) written

/-- The decimal digits of `n` if there are at most `room` of them. -/
def digitsWithin (room : Nat) (n : UInt64) : Option String :=
  (fillDigits room n.toNat []).map String.ofList

/-- A number is read of digits alone, at least one, if it fits 64 bits. -/
theorem readDecimal_eq_some_iff {cs : List Char} {n : UInt64} :
    readDecimal cs = some n ↔
      cs ≠ [] ∧ cs.all Char.isDigit = true ∧ Nat.ofDigitChars 10 cs 0 = n.toNat := by
  unfold readDecimal
  constructor
  · intro h
    split at h
    · next hc =>
      obtain rfl := Option.some.inj h
      exact ⟨hc.1, hc.2.1, by simp⟩
    · simp at h
  · rintro ⟨hne, hd, hv⟩
    have hlt : Nat.ofDigitChars 10 cs 0 < UInt64.size := hv ▸ n.toNat_lt
    rw [dif_pos ⟨hne, hd, hlt⟩]
    exact congrArg some (UInt64.toNat_inj.1 (by simpa using hv))

theorem toList_decimal (n : UInt64) : (decimal n).toList = Nat.toDigits 10 n.toNat := by
  simp [decimal, Nat.repr_eq_ofList_toDigits]

/-- Reading what was written gives the number back. -/
theorem readDecimal_decimal (n : UInt64) : readDecimal (decimal n).toList = some n := by
  rw [toList_decimal, readDecimal_eq_some_iff]
  refine ⟨Nat.toDigits_ne_nil, ?_, Nat.ofDigitChars_toDigits (by decide) (by decide)⟩
  simpa using fun c hc => Nat.isDigit_of_mem_toDigits (by decide) (by decide) hc

/-! ## Hexadecimal digits -/

/-- The value of a hexadecimal digit, in either case. -/
def hexValue? (c : Char) : Option Nat :=
  if c.isDigit then some (c.toNat - '0'.toNat)
  else if 'a' ≤ c.toLower ∧ c.toLower ≤ 'f' then some (c.toLower.toNat - 'a'.toNat + 10)
  else none

/-- The hexadecimal digit of a number below sixteen, in lower case. -/
def hexDigit (n : Nat) : Char := n.digitChar

/-- The number that hexadecimal digits write, the first one the highest.  There has to be one. -/
def hexNumber? : List Char → Option Nat
  | [] => none
  | digits => digits.foldlM (fun high c => (hexValue? c).map (high * 16 + ·)) 0

end CodeListing.Text
