import CodeListing.Text.Occurrence

/-!
# Font styles

A font style is a set of flags kept as the bits of a byte.  Four of the bits have a meaning; the
others are kept and mean nothing.
-/

namespace CodeListing

/-- A set of font flags. -/
structure FontStyle where
  bits : UInt8
  deriving DecidableEq, Repr

namespace FontStyle

/-- No flag. -/
def empty : FontStyle := ⟨0⟩

/-- Bold type. -/
def bold : FontStyle := ⟨1⟩

/-- A line below the text. -/
def underline : FontStyle := ⟨2⟩

/-- Italic type. -/
def italic : FontStyle := ⟨4⟩

/-- A line through the text. -/
def strikethrough : FontStyle := ⟨8⟩

/-- The flags of either style. -/
def union (a b : FontStyle) : FontStyle := ⟨a.bits ||| b.bits⟩

/-- Whether every flag of `b` is one of `a`. -/
def includes (a b : FontStyle) : Bool := a.bits &&& b.bits == b.bits

/-- The flags with the words that name them. -/
def named : List (String × FontStyle) :=
  [("bold", bold), ("italic", italic), ("underline", underline), ("strikethrough", strikethrough)]

/-- The flags whose names occur in `text`, wherever they stand in it. -/
def ofText (text : String) : FontStyle :=
  named.foldl (fun style (name, flag) =>
    if Text.occursIn name.toList text.toList then style.union flag else style) empty

/-- The style as declarations of a style sheet; nothing if it has none of the four flags. -/
def css (f : FontStyle) : String :=
  (if f.includes italic then "font-style:italic;" else "") ++
  (if f.includes bold then "font-weight:700;" else "") ++
  (if f.includes underline || f.includes strikethrough then
    "text-decoration-line:" ++
    (if f.includes underline then " underline" else "") ++
    (if f.includes strikethrough then " line-through" else "") ++ ";"
  else "")

end FontStyle

end CodeListing
