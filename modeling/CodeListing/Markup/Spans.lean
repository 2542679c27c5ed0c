import CodeListing.Markup
import CodeListing.Text.Utf8

/-!
# Escaping byte by byte

Another way to write foreign text, for comparison: it looks at nothing but the bytes of the text, and
at a special one it writes all that stands between the last special byte and this one, cut out of
the text at the two offsets, and then the entity.  A cut may be refused, as an offset may fall
inside a character; there is no answer then.

`shownAs` says what is written for each single character, and `EntityPlaced` where an ampersand comes
from.
-/

namespace CodeListing.Markup

/-- The special characters with their entities. -/
def entities : List (Char × String) :=
  [('>', "&gt;"), ('<', "&lt;"), ('&', "&amp;"), ('\'', "&#39;"), ('"', "&quot;")]

/-- The entity of a character if it has one, and else the character. -/
def shownAs (c : Char) : String := (entities.lookup c).getD (String.singleton c)

/-- The entity of the special character with this byte. -/
def entityOfByte? (byte : UInt8) : Option String :=
  (entities.find? fun (c, _) => c.toUInt8 == byte).map Prod.snd

/-- Writes a text from the byte at `place` on, of which `ahead` are the bytes.  What stands in front
of it from the byte at `start` on is not `written` yet. -/
def writeFrom? (text : List Char) (start place : Nat) (ahead : List UInt8) (written : String) :
    Option String :=
  match ahead with
  | [] =>
    if start < Text.byteLength text then
      (Text.slice? text start (Text.byteLength text)).map fun last => written ++ String.ofList last
    else
      some written
  | byte :: ahead =>
    match entityOfByte? byte with
    | none => writeFrom? text start (place + 1) ahead written
    | some entity =>
      (Text.slice? text start place).bind fun between =>
        writeFrom? text (place + 1) (place + 1) ahead (written ++ String.ofList between ++ entity)

/-- Writes foreign text behind what is `written` already. -/
def writeEscaped? (written text : String) : Option String :=
  writeFrom? text.toList 0 0 (Text.bytes text.toList) written

/-- The ampersand between `before` and `behind` begins the entity of a special character of the text.
In front of it is what comes of the text up to that character, and behind the entity what comes of
the rest. -/
def EntityPlaced (text : String) (before behind : List Char) : Prop :=
  ∃ done special others, text.toList = done ++ special :: others ∧
    (special, shownAs special) ∈ entities ∧ before = (escape (String.ofList done)).toList ∧
    '&' :: behind = (shownAs special).toList ++ (escape (String.ofList others)).toList

end CodeListing.Markup
