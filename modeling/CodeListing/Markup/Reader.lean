import Mathlib.Data.List.TakeWhile
import CodeListing.Markup

/-!
# Reading markup

How whoever opens the page reads it.  `lexemes?` takes a text apart into tags and characters.  It is
strict: a special character stands in a tag or begins an entity, or the text is refused.
`eraseTags` and `unescape?` take the tags out of a text and the entities back to what they stand
for.

`Piece.lexemes` and `Piece.content` are what a piece of markup is meant to be read as.
-/

namespace CodeListing.Markup

/-- Whether a character has an entity. -/
def isSpecial (c : Char) : Bool := c == '<' || c == '>' || c == '&' || c == '\'' || c == '"'

/-- The first character of foreign text: that of an entity, or one that has none. -/
def readChar? : (text : List Char) → Option (Char × List Char)
  | '&' :: 'l' :: 't' :: ';' :: text => some ('<', text)
  | '&' :: 'g' :: 't' :: ';' :: text => some ('>', text)
  | '&' :: 'a' :: 'm' :: 'p' :: ';' :: text => some ('&', text)
  | '&' :: '#' :: '3' :: '9' :: ';' :: text => some ('\'', text)
  | '&' :: 'q' :: 'u' :: 'o' :: 't' :: ';' :: text => some ('"', text)
  | c :: text => if isSpecial c then none else some (c, text)
  | [] => none

theorem length_of_readChar? {text rest : List Char} {c : Char}
    (read : readChar? text = some (c, rest)) :
    rest.length < text.length := by
  unfold readChar? at read
  split at read <;> simp_all <;> omega

/-- The text with every entity taken for its character; there is none if a special character stands
outside of an entity. -/
def unescape? (text : List Char) : Option (List Char) :=
  match _ : readChar? text with
  | some (c, rest) => (unescape? rest).map (c :: ·)
  | none => if text.isEmpty then some [] else none
termination_by text.length
decreasing_by exact length_of_readChar? ‹_›

/-- The text without its tags; `inside` says whether it begins within one. -/
def eraseTags (inside : Bool) : (text : List Char) → List Char
  | [] => []
  | c :: text =>
    if inside then eraseTags (c != '>') text
    else if c = '<' then eraseTags true text
    else c :: eraseTags false text

/-- What a text is made of for its reader. -/
inductive Lexeme
  | openTag (name : String) (attributes : List (String × String))
  | closeTag (name : String)
  | char (c : Char)
  deriving DecidableEq, Repr

/-- Whether a character may stand in the name of an element or of an attribute. -/
def isNameChar (c : Char) : Bool := c.isLower || c == '-'

/-- An attribute at the beginning of a text, and the text behind it. -/
def readAttribute? : (text : List Char) → Option ((String × String) × List Char)
  | ' ' :: text =>
    match text.dropWhile isNameChar with
    | '=' :: '"' :: behind =>
      match behind.dropWhile (· != '"') with
      | '"' :: rest =>
        (unescape? (behind.takeWhile (· != '"'))).map fun value =>
          ((String.ofList (text.takeWhile isNameChar), String.ofList value), rest)
      | _ => none
    | _ => none
  | _ => none

theorem length_of_readAttribute? {text rest : List Char} {a : String × String}
    (read : readAttribute? text = some (a, rest)) : rest.length < text.length := by
  unfold readAttribute? at read
  split at read
  · next text =>
    split at read
    · next behind named =>
      have name := List.length_dropWhile_le isNameChar text
      split at read
      · next others closed =>
        have value := List.length_dropWhile_le (· != '"') behind
        obtain ⟨decoded, -, same⟩ := Option.map_eq_some_iff.1 read
        cases same
        simp only [named, closed, List.length_cons] at name value ⊢
        omega
      · cases read
    · cases read
  · cases read

/-- The attributes that a text consists of. -/
def readAttributes? (text : List Char) : Option (List (String × String)) :=
  match _ : readAttribute? text with
  | some (a, rest) => (readAttributes? rest).map (a :: ·)
  | none => if text.isEmpty then some [] else none
termination_by text.length
decreasing_by exact length_of_readAttribute? ‹_›

/-- The tag with this text between its brackets. -/
def readTag? : (text : List Char) → Option Lexeme
  | '/' :: name => if name.all isNameChar then some (.closeTag (String.ofList name)) else none
  | text =>
    (readAttributes? (text.dropWhile isNameChar)).map
      (.openTag (String.ofList (text.takeWhile isNameChar)))

/-- The tags and characters that a text consists of. -/
def lexemes? : (text : List Char) → Option (List Lexeme)
  | [] => some []
  | c :: text =>
    if c = '<' then
      if text.contains '>' then
        (readTag? (text.takeWhile (· != '>'))).bind fun tag =>
          (lexemes? (text.dropWhile (· != '>')).tail).map (tag :: ·)
      else
        none
    else
      match _ : readChar? (c :: text) with
      | some (c, rest) => (lexemes? rest).map (.char c :: ·)
      | none => none
termination_by text => text.length
decreasing_by
  · have := List.length_dropWhile_le (· != '>') text
    simp only [List.length_tail, List.length_cons]
    omega
  · exact length_of_readChar? ‹_›

/-- A tag or a character in the one form that it is read from: special characters stand in a tag, or
in the entity of a character. -/
def Lexeme.written : Lexeme → List Char
  | .openTag name attributes =>
    '<' :: (name.toList ++
      attributes.flatMap fun (name, value) => (attributeText name (.foreign value)).toList) ++ ['>']
  | .closeTag name => '<' :: '/' :: name.toList ++ ['>']
  | .char c => escapeChar c

/-- The text is read as these lexemes, and is nothing but what is written for them. -/
structure Reads (text : String) (ls : List Lexeme) : Prop where
  read : lexemes? text.toList = some ls
  written : text.toList = ls.flatMap Lexeme.written

/-! ## Elements as they are read -/

/-- The lexemes of an element with its content. -/
def Lexeme.element (name : String) (attributes : List (String × String)) (content : List Lexeme) :
    List Lexeme :=
  .openTag name attributes :: content ++ [.closeTag name]

/-- Characters, and elements of the one name, each of them closed behind all that it holds. -/
inductive Nested (name : String) : List Lexeme → Prop
  | nil : Nested name []
  | char (c : Char) {rest : List Lexeme} : Nested name rest → Nested name (.char c :: rest)
  | element (attributes : List (String × String)) {content rest : List Lexeme} :
      Nested name content → Nested name rest →
        Nested name (Lexeme.element name attributes content ++ rest)

/-! ## What markup is meant to be read as -/

/-- The text that a value is about. -/
def Value.content : Value → String
  | .literal text => text
  | .foreign text => text

/-- The characters that a piece shows. -/
def Piece.content : Piece → List Char
  | .openTag _ _ => []
  | .closeTag _ => []
  | .literal content => content.toList
  | .text content => content.toList
  | .number n => (Text.decimal n).toList

/-- The tag or the characters that a piece is about. -/
def Piece.lexemes : Piece → List Lexeme
  | .openTag name attributes =>
    [.openTag name (attributes.map fun (name, value) => (name, value.content))]
  | .closeTag name => [.closeTag name]
  | p => p.content.map .char

end CodeListing.Markup
