import CodeListing.Style.Color
import CodeListing.Text.Utf8

/-!
# The grammar of colors

What a text may say behind its `#`, and which color that is (`Color.Spells`).  Where a share has two
characters, a plus sign may stand in place of the first.  `Color.Documented` knows no signs: a color
is one of two names or a number of hexadecimal digits.

The digits that are written of a color are a function of the digits that it was read from
(`Color.normalDigits`): in upper case, two for each share, and without a share of opacity if the
color is opaque.

Another way to read a color, for comparison, is `Color.ofSpans?`: the shares are cut out of the text
at offsets that hang on nothing but the number of its bytes.  A cut may fail, and a product may have
more than 8 bits, so it answers in two layers; the outer one is empty if either has happened.
-/

namespace CodeListing.Color

/-- The character is the hexadecimal digit of the value, in either case. -/
inductive HexDigit (c : Char) : (value : Nat) → Prop
  | decimal : '0' ≤ c → c ≤ '9' → HexDigit c (c.toNat - '0'.toNat)
  | lower : 'a' ≤ c → c ≤ 'f' → HexDigit c (c.toNat - 'a'.toNat + 10)
  | upper : 'A' ≤ c → c ≤ 'F' → HexDigit c (c.toNat - 'A'.toNat + 10)

/-- The characters of a share, of which there are `width`, and its value. -/
inductive Share : (width : Nat) → (text : List Char) → (value : Nat) → Prop
  /-- A single digit stands for itself written twice. -/
  | one {digit : Char} {n : Nat} : HexDigit digit n → Share 1 [digit] (16 * n + n)
  | two {high low : Char} {m n : Nat} :
      HexDigit high m → HexDigit low n → Share 2 [high, low] (16 * m + n)
  | signed {digit : Char} {n : Nat} : HexDigit digit n → Share 2 ['+', digit] n

/-- The text is made of the shares of the color, all of one width. -/
inductive Shares (body : List Char) : Color → Prop
  /-- Without a share of its own for it, the color is opaque. -/
  | three {width : Nat} {r g b : List Char} {c : Color} : body = r ++ (g ++ b) →
      Share width r c.red.toNat → Share width g c.green.toNat → Share width b c.blue.toNat →
      c.alpha = 255 → Shares body c
  | four {width : Nat} {r g b a : List Char} {c : Color} : body = r ++ (g ++ (b ++ a)) →
      Share width r c.red.toNat → Share width g c.green.toNat → Share width b c.blue.toNat →
      Share width a c.alpha.toNat → Shares body c

/-- The text, which has no `#` in front any more, says this color. -/
inductive Spells (body : List Char) : Color → Prop
  | white : body.map Char.toLower = "white".toList → Spells body white
  | black : body.map Char.toLower = "black".toList → Spells body black
  | shares {c : Color} : Shares body c → Spells body c

/-- The text is a name in any case, or three, four, six or eight hexadecimal digits. -/
def Documented (body : List Char) : Prop :=
  body.map Char.toLower = "white".toList ∨ body.map Char.toLower = "black".toList ∨
    body.length ∈ [3, 4, 6, 8] ∧ ∀ c ∈ body, ∃ n, HexDigit c n

/-! ## Colors in normal form -/

/-- The digits of shares in upper case.  The single digit of a narrow share is written twice. -/
def inFull (width : Nat) (digits : List Char) : List Char :=
  (if width = 1 then digits.flatMap fun c => [c, c] else digits).map Char.toUpper

/-- The digits of a color in their normal form.  The fourth pair is left out if it is `FF`. -/
def normalDigits (digits : List Char) : List Char :=
  let full := inFull (if digits.length ≤ 4 then 1 else 2) digits
  if full.drop 6 = ['F', 'F'] then full.take 6 else full

/-! ## Colors cut at byte offsets -/

/-- A reading of which a step may fail for which there is no error. -/
abbrev Checked := ExceptT ColorFault Option

/-- The share between two bytes of the text. -/
def shareAt (digits : List Char) (start stop : Nat) : Checked UInt8 :=
  match Text.slice? digits start stop with
  | some text => ExceptT.mk (some (component text))
  | none => ExceptT.mk none

/-- The share of a single digit as 8 bits, if it fits there. -/
def times17 (n : UInt8) : Checked UInt8 :=
  if n.toNat * 17 < UInt8.size then pure (n * 17) else ExceptT.mk none

/-- The color of three or four shares, by the number of bytes of all digits. -/
def ofBytes? (digits : List Char) : Checked Color :=
  match Text.byteLength digits with
  | 3 => do
    let r ← shareAt digits 0 1
    let g ← shareAt digits 1 2
    let b ← shareAt digits 2 3
    return ⟨← times17 r, ← times17 g, ← times17 b, 255⟩
  | 4 => do
    let r ← shareAt digits 0 1
    let g ← shareAt digits 1 2
    let b ← shareAt digits 2 3
    let a ← shareAt digits 3 4
    return ⟨← times17 r, ← times17 g, ← times17 b, ← times17 a⟩
  | 6 => do
    let r ← shareAt digits 0 2
    let g ← shareAt digits 2 4
    let b ← shareAt digits 4 6
    return ⟨r, g, b, 255⟩
  | 8 => do
    let r ← shareAt digits 0 2
    let g ← shareAt digits 2 4
    let b ← shareAt digits 4 6
    let a ← shareAt digits 6 8
    return ⟨r, g, b, a⟩
  | length => throw (.length length)

/-- The color that a text names, by the bytes behind its `#`. -/
def ofSpans? (text : String) : Checked Color :=
  let digits := body text
  if Text.equalsIgnoringCase digits "white".toList then
    return white
  else if Text.equalsIgnoringCase digits "black".toList then
    return black
  else if digits.any (127 < ·.toNat) then
    throw .nonAscii
  else
    ofBytes? digits

end CodeListing.Color
