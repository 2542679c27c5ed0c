import CodeListing.Json.Reader

/-!
# Numbers in JSON

Only whole numbers are ever wanted, so a number is read for its grammar, for the whole number that
it may write, and for its size: a number beyond the range of a 64-bit floating-point number is
malformed, whatever is wanted.  To tell, the digits that fit into 64 bits are kept, the others are
counted in the exponent, and the product with the power of ten is rounded as floating-point
multiplication does.
-/

namespace CodeListing.Json

/-- The digits of a number, part by part. -/
structure NumberParts where
  negative : Bool
  whole : List Char
  fraction : Option (List Char)
  exponent : Option (Bool × List Char)

namespace Reader

/-- Takes one or more digits; `cut` is the fault if the text ends instead. -/
def digits (cut : Fault) : Reader (List Char) := do
  match (← get).span Char.isDigit with
  | ([], []) => throw cut
  | ([], _ :: _) => throw .malformed
  | (ds, rest) =>
    set rest
    return ds

/-- The parts of a number; `cut` is the fault if the text ends inside of it. -/
def numberParts (cut : Fault) : Reader NumberParts := do
  let negative := (← next?) == some '-'
  if negative then
    advance
  let whole ← digits cut
  if whole.head? = some '0' ∧ whole ≠ ['0'] then
    throw .malformed
  let mut fraction : Option (List Char) := none
  if (← next?) = some '.' then
    advance
    fraction := some (← digits cut)
  let mut exponent : Option (Bool × List Char) := none
  let mark ← next?
  if mark = some 'e' ∨ mark = some 'E' then
    advance
    let sign ← next?
    if sign = some '+' ∨ sign = some '-' then
      advance
    exponent := some (sign == some '-', ← digits cut)
  return { negative, whole, fraction, exponent }

end Reader

namespace NumberParts

/-- The number written by `n` and as many of the digits behind it as fit into 64 bits with it, and
the digits that do not. -/
def absorb (n : Nat) : List Char → Nat × List Char
  | [] => (n, [])
  | d :: ds =>
    let longer := n * 10 + (d.toNat - '0'.toNat)
    if longer < 2 ^ 64 then absorb longer ds else (n, d :: ds)

/-- The natural number nearest to `n` that has 53 significant bits, the one with an even last bit if
two are. -/
def nearest53 (n : Nat) : Nat :=
  let unit := 1 <<< (n.log2 + 1 - 53)
  let low := n / unit
  let rest := n % unit
  if unit < 2 * rest ∨ (2 * rest = unit ∧ low % 2 = 1) then (low + 1) * unit else low * unit

/-- Whether `n` times a power of ten is a finite 64-bit floating-point number. -/
def isFinite (n : Nat) (exponent : Int) : Bool :=
  n == 0 || exponent ≤ 0 ||
    (exponent ≤ 308 && nearest53 (nearest53 n * nearest53 (Nat.pow 10 exponent.toNat)) < 1 <<< 1024)

/-- The whole number that the parts write without sign, fraction or exponent in 64 bits. -/
def natural? (p : NumberParts) : Option Nat :=
  match p.negative, p.fraction, p.exponent, absorb 0 p.whole with
  | false, none, none, (n, []) => some n
  | _, _, _, _ => none

/-- Whether the number is within the range of 64-bit floating-point numbers. -/
def inRange (p : NumberParts) : Bool :=
  let (n, dropped) := absorb 0 p.whole
  let fraction := p.fraction.getD []
  let (n, ignored) := absorb n fraction
  let exponent : Int := match p.exponent with
    | none => 0
    | some (negative, ds) =>
      let size : Int := Nat.ofDigitChars 10 ds 0
      if negative then -size else size
  isFinite n (dropped.length - (fraction.length - ignored.length) + exponent)

end NumberParts

/-- A number: the whole number that it writes without sign, fraction or exponent in 64 bits, if it
does. -/
def Reader.number : Reader (Option Nat) := do
  let parts ← numberParts .truncated
  if parts.inRange then
    return parts.natural?
  else
    throw .malformed

end CodeListing.Json
