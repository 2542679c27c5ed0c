import CodeListing.Style

/-!
# What styles show

A flag of a font style is a bit of it, at a place of its own (`FontStyle.Has`).  Each flag has a
word, and a text names the flag if the word stands anywhere in it, on its own or as a part of a
longer one (`FontFlag.NamedIn`).

A pair of styles shows four colors, each of which may be missing, and the flags of the font style on
which its two themes agree.  `StylePair.ShowsAlike` compares two pairs by this, and `StylePair.Bare`
says that nothing is shown.
-/

namespace CodeListing

/-! ## Flags and their words -/

/-- The flags of a font style that have a meaning. -/
inductive FontFlag
  | bold
  | underline
  | italic
  | strikethrough
  deriving DecidableEq, Repr

/-- The place of the flag among the bits of a font style. -/
def FontFlag.place : FontFlag → Nat
  | .bold => 0
  | .underline => 1
  | .italic => 2
  | .strikethrough => 3

/-- The font style has the flag. -/
def FontStyle.Has (f : FontStyle) (flag : FontFlag) : Prop := f.bits.toNat.testBit flag.place = true

/-- The word for the flag. -/
def FontFlag.word : FontFlag → String
  | .bold => "bold"
  | .underline => "underline"
  | .italic => "italic"
  | .strikethrough => "strikethrough"

/-- The word for the flag stands in the text. -/
def FontFlag.NamedIn (flag : FontFlag) (text : String) : Prop := flag.word.toList <:+: text.toList

namespace FontStyle

instance (f : FontStyle) (flag : FontFlag) : Decidable (f.Has flag) :=
  inferInstanceAs (Decidable (_ = true))

/-- The flags of all the styles, put together one after the other. -/
def unionAll (styles : List FontStyle) : FontStyle := styles.foldl union empty

/-- The bit of a font style at a place, with or without a meaning. -/
def bit (f : FontStyle) (place : Nat) : Bool := f.bits.toNat.testBit place

end FontStyle

/-! ## Pairs of styles -/

namespace StylePair

/-- Both themes set one and the same font style, bits without a meaning included, and it has the
flag. -/
def Shows (s : StylePair) (flag : FontFlag) : Prop :=
  ∃ f, s.light.font = some f ∧ s.dark.font = some f ∧ f.Has flag

/-- The pairs show the same four colors and the same flags. -/
structure ShowsAlike (s t : StylePair) : Prop where
  lightForeground : s.light.foreground = t.light.foreground
  lightBackground : s.light.background = t.light.background
  darkForeground : s.dark.foreground = t.dark.foreground
  darkBackground : s.dark.background = t.dark.background
  flags : ∀ flag, s.Shows flag ↔ t.Shows flag

/-- The pair shows no color and no flag. -/
structure Bare (s : StylePair) : Prop where
  lightForeground : s.light.foreground = none
  lightBackground : s.light.background = none
  darkForeground : s.dark.foreground = none
  darkBackground : s.dark.background = none
  flags : ∀ flag, ¬ s.Shows flag

end StylePair

end CodeListing
