import CodeListing.Text.Letters
import CodeListing.Text.Numeral

/-!
# Colors

A color has four 8-bit shares.  It is read from hexadecimal digits or from one of two names
(`Color.ofText`) and written as upper-case hexadecimal (`Color.toText`), the alpha share only if the
color is not opaque.
-/

namespace CodeListing

/-- A color by its shares of red, green, blue and opacity. -/
structure Color where
  red : UInt8
  green : UInt8
  blue : UInt8
  alpha : UInt8
  deriving DecidableEq, Repr

/-- Why a text names no color. -/
inductive ColorFault
  /-- It holds a character outside ASCII. -/
  | nonAscii
  /-- It is neither a name nor of a length that a color can have. -/
  | length (characters : Nat)
  /-- It has a share that is no hexadecimal number. -/
  | component (digits : String)
  deriving DecidableEq, Repr

/-- The fault in words. -/
def ColorFault.reason : ColorFault → String
  | .nonAscii => "non-ASCII characters"
  | .length n => "invalid length " ++ n.repr
  | .component digits => "invalid hex component '" ++ digits ++ "'"

namespace Color

/-- Opaque white. -/
def white : Color := ⟨255, 255, 255, 255⟩

/-- Opaque black. -/
def black : Color := ⟨0, 0, 0, 255⟩

/-- One share of a color: one or two hexadecimal digits; a plus sign may stand in place of the first
of two. -/
def component (digits : List Char) : Except ColorFault UInt8 :=
  let number := match digits with
    | '+' :: rest => Text.hexNumber? rest
    | _ => Text.hexNumber? digits
  match number with
  | some n => .ok n.toUInt8
  | none => .error (.component (String.ofList digits))

/-- The share that a single digit stands for: the digit written twice. -/
def shade (digit : Char) : Except ColorFault UInt8 := (component [digit]).map (· * 17)

/-- The color of three or four shares, one digit each or two digits each. -/
def ofDigits : (digits : List Char) → Except ColorFault Color
  | [r, g, b] => return ⟨← shade r, ← shade g, ← shade b, 255⟩
  | [r, g, b, a] => return ⟨← shade r, ← shade g, ← shade b, ← shade a⟩
  | [r, r', g, g', b, b'] =>
    return ⟨← component [r, r'], ← component [g, g'], ← component [b, b'], 255⟩
  | [r, r', g, g', b, b', a, a'] =>
    return ⟨← component [r, r'], ← component [g, g'], ← component [b, b'], ← component [a, a']⟩
  | digits => .error (.length digits.length)

/-- What a text says behind the `#` that it begins with, however many there are. -/
def body (text : String) : List Char := text.toList.dropWhile (· == '#')

/-- The color that a text names: after any number of `#`, a name or the hexadecimal digits of three
or four shares. -/
def ofText (text : String) : Except ColorFault Color :=
  let digits := body text
  if Text.equalsIgnoringCase digits "white".toList then
    .ok white
  else if Text.equalsIgnoringCase digits "black".toList then
    .ok black
  else if digits.any (127 < ·.toNat) then
    .error .nonAscii
  else
    ofDigits digits

/-- The two hexadecimal digits of a share, in upper case. -/
def hexPair (n : UInt8) : List Char :=
  [Text.hexDigit (n.toNat / 16), Text.hexDigit (n.toNat % 16)].map Char.toUpper

/-- The color in hexadecimal digits. -/
def toText (c : Color) : String :=
  String.ofList ('#' :: (hexPair c.red ++ hexPair c.green ++ hexPair c.blue ++
    (if c.alpha < 255 then hexPair c.alpha else [])))

end Color

end CodeListing
