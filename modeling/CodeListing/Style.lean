import CodeListing.Style.Color
import CodeListing.Style.FontStyle

/-!
# Styles

A `Style` sets any of three attributes.  Where several rules apply to a piece of code,
`Style.cascade` takes each attribute from the first rule that sets it.  A `StylePair` is what the
light and the dark theme make of the same piece; `StylePair.css` writes both, with the colors under
names that a style sheet can choose from.
-/

namespace CodeListing

/-- What a rule sets for the code that it applies to.  A font style without flags is set all the
same. -/
structure Style where
  foreground : Option Color := none
  background : Option Color := none
  font : Option FontStyle := none
  deriving DecidableEq, Repr

namespace Style

/-- The attributes of `s`, and those of `t` that `s` does not set. -/
def orElse (s t : Style) : Style where
  foreground := s.foreground.or t.foreground
  background := s.background.or t.background
  font := s.font.or t.font

/-- Whether every attribute is set. -/
def isComplete (s : Style) : Bool := s.foreground.isSome && s.background.isSome && s.font.isSome

/-- The attributes of `s`, the missing ones taken from the first of the rules that sets them.  Rules
past the point where nothing is missing are not looked at. -/
def fillFrom (s : Style) : List Style → Style
  | [] => s
  | rule :: rules =>
    let filled := s.orElse rule
    if filled.isComplete then filled else filled.fillFrom rules

/-- Each attribute from the first of the rules that sets it. -/
def cascade (rules : List Style) : Style := ({} : Style).fillFrom rules

/-- The colors as declarations of custom properties for one variant of the page. -/
def colorCss (variant : String) (s : Style) : String :=
  (match s.foreground with
    | some c => "--color-" ++ variant ++ ":" ++ c.toText ++ ";"
    | none => "") ++
  (match s.background with
    | some c => "--bg-" ++ variant ++ ":" ++ c.toText ++ ";"
    | none => "")

end Style

/-- The styles of a piece of code in the light and in the dark theme. -/
structure StylePair where
  light : Style := {}
  dark : Style := {}
  deriving DecidableEq, Repr

namespace StylePair

/-- The font style on which the two themes agree; none if they differ. -/
def font (s : StylePair) : Option FontStyle :=
  if s.light.font = s.dark.font then s.light.font else none

/-- The pair as the declarations of a `style` attribute. -/
def css (s : StylePair) : String :=
  s.light.colorCss "light" ++ s.dark.colorCss "dark" ++
  (match s.font with
    | some f => f.css
    | none => "")

end StylePair

end CodeListing
