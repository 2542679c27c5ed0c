import CodeListing.Line.Progress
import CodeListing.Markup
import CodeListing.Style

/-!
# Listings

A listing is a block on its way to the page: its lines with what their directives say about them,
and their code in fragments.  A fragment carries a value of type `α`, first the scopes of its token
and later its styles.

`Listing.markup` is the page's view of a listing with styles.  Numbers passed over are shown as a
line of their own in front of the line that passes them over, and as a row of the gutter, which is
there only if numbers were asked for.
-/

namespace CodeListing

/-- A stretch of code with what is known about it. -/
structure Fragment (α : Type) where
  code : String
  tag : α
  deriving DecidableEq, Repr

/-- A line of a listing. -/
structure ListingLine (α : Type) where
  note : LineNote
  fragments : List (Fragment α)
  deriving DecidableEq, Repr

/-- A listing: the lines of a block, and what its fence and its directives say of it as a whole. -/
structure Listing (α : Type) where
  language : String
  group : Option String
  anyFocused : Bool
  anyNumbered : Bool
  lines : List (ListingLine α)
  deriving DecidableEq, Repr

open Markup

/-- A stretch of code as an element, with its styles if there are any. -/
def styledCode (css code : String) : List Piece :=
  element "span" (if css.isEmpty then [] else [("style", .literal css)]) [.text code]

/-- A fragment as an element. -/
def Fragment.markup (f : Fragment StylePair) : List Piece := styledCode f.tag.css f.code

/-- The line that stands for numbers passed over. -/
def skippedLine (r : NumberRange) : List Piece :=
  element "span" [("class", .literal "line highlighted skipped-lines")]
    ([.literal "Skipped lines ", .number r.first, .literal " through ", .number r.last,
      .literal " "] ++
      element "span" [("class", .literal "skipped-lines-icon")] [])

/-- The classes of the element of a line. -/
def LineNote.classes (n : LineNote) : String :=
  "line" ++ n.mark.classes ++ (if n.focused then " has-focus" else "")

/-- A line as an element, behind the lines that stand for the numbers that it passes over. -/
def ListingLine.markup (l : ListingLine StylePair) : List Piece :=
  l.note.skipped.flatMap skippedLine ++
    element "span" [("class", .literal l.note.classes)] (l.fragments.flatMap Fragment.markup)

/-- A row of the gutter. -/
inductive GutterRow
  | number (n : UInt64)
  | skipped (r : NumberRange)
  deriving DecidableEq, Repr

/-- The row as an element. -/
def GutterRow.markup : GutterRow → List Piece
  | .number n => element "span" [] [.number n]
  | .skipped r =>
    element "span" [("class", .literal "skipped-lines")]
      [.number r.first, .literal "-", .number r.last]

/-- The gutter with these rows, as an element. -/
def gutterMarkup (rows : List GutterRow) : List Piece :=
  element "div" [("class", .literal "line-numbers"), ("aria-hidden", .literal "true")]
    (rows.flatMap GutterRow.markup)

/-- The attributes of the element that holds a listing. -/
def listingAttributes (language : String) (group : Option String) (anyFocused : Bool) :
    List (String × Value) :=
  ("class", .literal (if anyFocused then "codefence has-focused-lines" else "codefence")) ::
    ("data-lang", .foreign language) ::
    group.toList.map ("data-group", .foreign ·)

/-- The rows that a line has in the gutter: the numbers that it passes over, then its own. -/
def LineNote.gutter (n : LineNote) : List GutterRow :=
  n.skipped.map .skipped ++ n.number.toList.map .number

namespace Listing

variable {α : Type}

/-- The rows of the gutter, from top to bottom. -/
def gutterRows (l : Listing α) : List GutterRow := l.lines.flatMap (·.note.gutter)

/-- The gutter as an element, if numbers were asked for. -/
def gutter (l : Listing α) : List Piece := if l.anyNumbered then gutterMarkup l.gutterRows else []

/-- The listing as an element: the code, and the gutter if there is one. -/
def markup (l : Listing StylePair) : List Piece :=
  element "pre" (listingAttributes l.language l.group l.anyFocused)
    (element "code" [] (l.lines.flatMap ListingLine.markup) ++ l.gutter)

end Listing

end CodeListing
