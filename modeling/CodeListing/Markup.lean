import CodeListing.Text.Numeral

/-!
# Markup

Markup is a list of pieces: tags, text and numbers.  `Piece.toText` writes a piece.  Literals, the
text that the library brings along or puts together itself, are written as they are; foreign text,
as the content of elements or as the value of an attribute, is written with the five special
characters as entities.
-/

namespace CodeListing

namespace Markup

/-- A character of foreign text, as an entity if it is special. -/
def escapeChar : Char → List Char
  | '<' => ['&', 'l', 't', ';']
  | '>' => ['&', 'g', 't', ';']
  | '&' => ['&', 'a', 'm', 'p', ';']
  | '\'' => ['&', '#', '3', '9', ';']
  | '"' => ['&', 'q', 'u', 'o', 't', ';']
  | c => [c]

/-- Foreign text with its special characters as entities. -/
def escape (text : String) : String := String.ofList (text.toList.flatMap escapeChar)

/-- The value of an attribute. -/
inductive Value
  | literal (text : String)
  | foreign (text : String)
  deriving DecidableEq, Repr

/-- The value as it is written. -/
def Value.toText : Value → String
  | .literal text => text
  | .foreign text => escape text

/-- A piece of markup. -/
inductive Piece
  | openTag (name : String) (attributes : List (String × Value))
  | closeTag (name : String)
  | literal (content : String)
  /-- Foreign text. -/
  | text (content : String)
  | number (n : UInt64)
  deriving DecidableEq, Repr

/-- An attribute with the blank in front of it. -/
def attributeText (name : String) (value : Value) : String :=
  " " ++ name ++ "=\"" ++ value.toText ++ "\""

/-- The piece as it is written. -/
def Piece.toText : Piece → String
  | .openTag name attributes =>
    "<" ++ name ++ String.join (attributes.map fun (name, value) => attributeText name value) ++ ">"
  | .closeTag name => "</" ++ name ++ ">"
  | .literal content => content
  | .text content => escape content
  | .number n => Text.decimal n

/-- An element with its content. -/
def element (name : String) (attributes : List (String × Value)) (content : List Piece) :
    List Piece :=
  .openTag name attributes :: content ++ [.closeTag name]

/-- Markup as it is written. -/
def toText (markup : List Piece) : String := String.join (markup.map Piece.toText)

end Markup

end CodeListing
