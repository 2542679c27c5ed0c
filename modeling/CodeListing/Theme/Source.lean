import CodeListing.Json.Shape
import CodeListing.Json.Writer
import CodeListing.Text.Letters
import CodeListing.Text.WhiteSpace

/-!
# Themes as they are written

The content of the JSON file of a theme: a name, a kind, and rules.  A rule gives settings to
scopes; its scopes come as one text or as a list of texts, each of which may hold several selectors
separated by commas.  Nothing is made of the settings here; `CodeListing.Theme` does that.
-/

namespace CodeListing

open Json

/-- Whether a theme is for a light or a dark page. -/
inductive ThemeKind
  | light
  | dark
  deriving DecidableEq, Repr

namespace ThemeKind

/-- A theme that does not say is dark. -/
def default : ThemeKind := .dark

/-- The kind that the word of a theme file means: whatever is not `light` is dark. -/
def ofText (word : String) : ThemeKind :=
  if Text.equalsIgnoringCase word.toList "light".toList then .light else .dark

/-- The name of the kind as a JSON value. -/
def name : ThemeKind → String
  | .light => "Light"
  | .dark => "Dark"

/-- Reads a kind by its name. -/
def ofJson : Reader ThemeKind := Reader.oneOf ([light, dark].map fun k => (k.name, k))

/-- Writes the name of a kind. -/
def toJson (k : ThemeKind) : String := Writer.text k.name

end ThemeKind

/-- What a rule of a theme file sets, as it is written. -/
structure SourceSettings where
  foreground : Option String := none
  background : Option String := none
  fontStyle : Option String := none
  deriving DecidableEq, Repr

/-- A rule of a theme file. -/
structure SourceRule where
  scope : List String := []
  settings : SourceSettings := {}
  deriving DecidableEq, Repr

/-- A theme file. -/
structure ThemeSource where
  name : String := ""
  kind : Option String := none
  rules : List SourceRule := []
  deriving DecidableEq, Repr

namespace SourceSettings

/-- The text of a color setting, without white space around it.  An empty text and the word
`inherit` set no color. -/
def color? (value : Option String) : Option String :=
  match value with
  | none => none
  | some text =>
    let text := String.ofList (Text.trim text.toList)
    if text = "" ∨ text = "inherit" then none else some text

/-- The text of the foreground color that is set. -/
def foregroundText (s : SourceSettings) : Option String := color? s.foreground

/-- The text of the background color that is set. -/
def backgroundText (s : SourceSettings) : Option String := color? s.background

/-- Reads the settings. -/
def ofJson : Reader SourceSettings :=
  Reader.record [
    ⟨"foreground", .nullable, fun s =>
      return { s with foreground := ← Reader.nullable Reader.text }⟩,
    ⟨"background", .nullable, fun s =>
      return { s with background := ← Reader.nullable Reader.text }⟩,
    ⟨"fontStyle", .nullable, fun s =>
      return { s with fontStyle := ← Reader.nullable Reader.text }⟩] {}

end SourceSettings

namespace SourceRule

/-- The texts of the rule's selectors: the pieces of its scopes between commas, without white space
around them, as far as they are not empty. -/
def selectorTexts (r : SourceRule) : List String :=
  (r.scope.flatMap fun scope => (scope.toList.splitOn ',').map Text.trim).filterMap fun piece =>
    if piece.isEmpty then none else some (String.ofList piece)

/-- Reads a rule. -/
def ofJson : Reader SourceRule :=
  Reader.record [
    ⟨"scope", .defaulted, fun r => return { r with scope := ← Reader.textOrTexts }⟩,
    ⟨"settings", .defaulted, fun r => return { r with settings := ← SourceSettings.ofJson }⟩] {}

end SourceRule

namespace ThemeSource

/-- Reads a theme file. -/
def ofJson : Reader ThemeSource :=
  Reader.record [
    ⟨"name", .defaulted, fun t => return { t with name := ← Reader.text }⟩,
    ⟨"type", .nullable, fun t => return { t with kind := ← Reader.nullable Reader.text }⟩,
    ⟨"tokenColors", .defaulted, fun t =>
      return { t with rules := ← Reader.list SourceRule.ofJson }⟩] {}

/-- The theme file with the given content. -/
def ofText (content : String) : Except Fault ThemeSource := Reader.readAll ofJson content

end ThemeSource

end CodeListing
