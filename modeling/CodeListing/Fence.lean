import CodeListing.Text.Numeral

/-!
# Fences

The info string of a fence says how its block is shown: the language, whether and from where lines
are numbered, which lines are highlighted, and the group of blocks that it belongs to.  `Fence`
holds what it says and `Fence.toText` writes it in its normal form; `CodeListing.Fence.Reader` reads
it.  Lines are highlighted, and passed over, in ranges of numbers (`NumberRange`).
-/

namespace CodeListing

/-! ## Ranges of numbers -/

/-- A non-empty range of 64-bit numbers, both ends included. -/
structure NumberRange where
  first : UInt64
  last : UInt64
  first_le_last : first ≤ last
  deriving DecidableEq, Repr

namespace NumberRange

/-- The numbers between `a` and `b`, whichever is the larger. -/
def between (a b : UInt64) : NumberRange :=
  if h : a ≤ b then ⟨a, b, h⟩
  else ⟨b, a, UInt64.le_iff_toNat_le.2 (Nat.le_of_lt (by simpa [UInt64.le_iff_toNat_le] using h))⟩

/-- Whether the range holds `n`. -/
def contains (r : NumberRange) (n : Nat) : Bool := r.first.toNat ≤ n && n ≤ r.last.toNat

/-- The order of the two numbers does not matter. -/
theorem contains_between (a b : UInt64) (n : Nat) :
    (between a b).contains n = true ↔
      min a.toNat b.toNat ≤ n ∧ n ≤ max a.toNat b.toNat := by
  unfold between contains
  split
  · next h =>
    have := UInt64.le_iff_toNat_le.1 h
    simp only [Bool.and_eq_true, decide_eq_true_eq]; omega
  · next h =>
    have : ¬ a.toNat ≤ b.toNat := fun h' => h (UInt64.le_iff_toNat_le.2 h')
    simp only [Bool.and_eq_true, decide_eq_true_eq]; omega

end NumberRange

/-! ## What an info string says -/

/-- Whether the lines of a block are numbered, and from which number on. -/
inductive LineNumbering
  | disabled
  | from (first : UInt64)
  deriving DecidableEq, Repr

/-- What an info string says. -/
structure Fence where
  language : String
  numbering : LineNumbering
  /-- The places of highlighted lines, counted from zero. -/
  highlighted : List NumberRange
  group : Option String
  deriving DecidableEq, Repr

/-- The option that asks for this numbering, with its number always written. -/
def LineNumbering.toText : LineNumbering → String
  | .disabled => ":no-line-numbers"
  | .from first => ":line-numbers=" ++ Text.decimal first

/-- A range in digits: its only number, or its two ends. -/
def NumberRange.toText (r : NumberRange) : String :=
  if r.first = r.last then Text.decimal r.first
  else Text.decimal r.first ++ "-" ++ Text.decimal r.last

namespace Fence

/-- Whether the fence highlights the line at the place `index`. -/
def highlights (f : Fence) (index : Nat) : Bool := f.highlighted.any (·.contains index)

/-- The info string in its normal form. -/
def toText (f : Fence) : String :=
  f.language ++ f.numbering.toText ++
  (if f.highlighted.isEmpty then ""
    else "\x7b" ++ ",".intercalate (f.highlighted.map NumberRange.toText) ++ "\x7d") ++
  (match f.group with
    | some group => "[" ++ group ++ "]"
    | none => "")

end Fence

end CodeListing
