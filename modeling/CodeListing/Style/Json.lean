import CodeListing.Json.Shape
import CodeListing.Json.Writer
import CodeListing.Style

/-!
# Styles as JSON

Colors, font styles and styles as records of a JSON text, in both directions.
-/

namespace CodeListing

open Json

namespace Color

/-- Reads the four shares. -/
def ofJson : Reader Color :=
  Reader.record [
    ⟨"r", .required, fun c => return { c with red := ← Reader.byte }⟩,
    ⟨"g", .required, fun c => return { c with green := ← Reader.byte }⟩,
    ⟨"b", .required, fun c => return { c with blue := ← Reader.byte }⟩,
    ⟨"a", .required, fun c => return { c with alpha := ← Reader.byte }⟩] ⟨0, 0, 0, 0⟩

/-- Writes the four shares. -/
def toJson (c : Color) : String :=
  Writer.object [
    ("r", Writer.number c.red.toNat), ("g", Writer.number c.green.toNat),
    ("b", Writer.number c.blue.toNat), ("a", Writer.number c.alpha.toNat)]

end Color

namespace FontStyle

/-- Reads the bits. -/
def ofJson : Reader FontStyle :=
  Reader.record [⟨"bits", .required, fun _ => return ⟨← Reader.byte⟩⟩] empty

/-- Writes the bits. -/
def toJson (f : FontStyle) : String := Writer.object [("bits", Writer.number f.bits.toNat)]

end FontStyle

namespace Style

/-- Reads the attributes. -/
def ofJson : Reader Style :=
  Reader.record [
    ⟨"foreground", .nullable, fun s =>
      return { s with foreground := ← Reader.nullable Color.ofJson }⟩,
    ⟨"background", .nullable, fun s =>
      return { s with background := ← Reader.nullable Color.ofJson }⟩,
    ⟨"font_style", .nullable, fun s =>
      return { s with font := ← Reader.nullable FontStyle.ofJson }⟩] {}

/-- Writes the attributes. -/
def toJson (s : Style) : String :=
  Writer.object [
    ("foreground", Writer.nullable Color.toJson s.foreground),
    ("background", Writer.nullable Color.toJson s.background),
    ("font_style", Writer.nullable FontStyle.toJson s.font)]

end Style

end CodeListing
