import CodeListing.Json.Shape
import CodeListing.Json.Writer

/-!
# Configuration

What holds for all blocks of a document.
-/

namespace CodeListing

open Json

/-- What holds for all blocks of a document. -/
structure Config where
  /-- Whether the lines of a block are numbered if its fence does not say. -/
  numberLines : Bool := false
  /-- A text that the reader of the document adds to info strings, and that is taken out again. -/
  infoPrefix : Option String := none
  deriving DecidableEq, Repr

namespace Config

/-- Reads a configuration; what it leaves out stays as in the empty one. -/
def ofJson : Reader Config :=
  Reader.record [
    ⟨"line_numbers_by_default", .defaulted, fun c =>
      return { c with numberLines := ← Reader.bool }⟩,
    ⟨"info_prefix", .defaulted, fun c =>
      return { c with infoPrefix := ← Reader.nullable Reader.text }⟩] {}

/-- Writes a configuration. -/
def toJson (c : Config) : String :=
  Writer.object [
    ("line_numbers_by_default", Writer.bool c.numberLines),
    ("info_prefix", Writer.nullable Writer.text c.infoPrefix)]

end Config

end CodeListing
