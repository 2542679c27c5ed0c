import CodeListing.Listing.Transcript
import CodeListing.Markup.Element

/-!
# What is found of a listing

The text of a listing without its markup: for each line the numbers that it passes over and its
code, and the rows of the gutter behind all lines.  `Fence.notes` finds out what the directives of
the lines say without asking any tokenizer.

`Page.ofText?` finds a listing in the text of its markup: its frame, the rows of its code, and those
of the gutter if there is one.  It knows nothing of the listing but how the frame is built.
`Listing.page` is what there should be to be found.
-/

namespace CodeListing

/-! ## The text of a listing -/

/-- What is read of the line that stands for numbers passed over. -/
def NumberRange.readable (r : NumberRange) : String :=
  "Skipped lines " ++ Text.decimal r.first ++ " through " ++ Text.decimal r.last ++ " "

/-- What is read of a line with this code. -/
def LineNote.readable (n : LineNote) (code : String) : String :=
  String.join (n.skipped.map NumberRange.readable) ++ code

/-- What is read of a line in fragments. -/
def ListingLine.readable {α : Type} (l : ListingLine α) : String :=
  l.note.readable (String.join (l.fragments.map (·.code)))

/-- What is read of a row of the gutter. -/
def GutterRow.readable : GutterRow → String
  | .number n => Text.decimal n
  | .skipped r => Text.decimal r.first ++ "-" ++ Text.decimal r.last

namespace Fence

/-- The notes on the lines from the place `index` on, up to the first unknown word. -/
def notesFrom (fence : Fence) (index : Nat) (progress : Progress) :
    (lines : List String) → List LineNote
  | [] => []
  | line :: lines =>
    match progress.passLine fence index line with
    | (_, .error _) => []
    | (progress, .ok note) => note :: fence.notesFrom (index + 1) progress lines

/-- The notes on the lines of a block. -/
def notes (fence : Fence) (lines : List String) : List LineNote :=
  fence.notesFrom 0 (.start fence.numbering) lines

/-- What is read of lines with these notes. -/
def readableLines (notes : List LineNote) (lines : List String) : List String :=
  List.zipWith (fun note line => note.readable (DirectiveComment.split line).code) notes lines

/-- What is read of a block: its lines, and the gutter if there is one. -/
def readable (fence : Fence) (anyNumbered : Bool) (lines : List String) : String :=
  String.join (readableLines (fence.notes lines) lines) ++
    if anyNumbered then
      String.join (((fence.notes lines).flatMap LineNote.gutter).map GutterRow.readable)
    else ""

end Fence

/-! ## A listing on the page -/

open Markup

/-- A listing as it is found on a page. -/
structure Page where
  frame : Element
  /-- The rows of the code. -/
  rows : List Element
  /-- The rows of the gutter. -/
  gutter : Option (List Element)
  deriving DecidableEq, Repr

namespace Page

/-- The listing that an element `pre` frames. -/
def ofFrame? (frame : Element) : Option Page := do
  match ← frame.children? "pre" with
  | [code] => return ⟨frame, ← code.children? "code", none⟩
  | [code, gutter] =>
    if gutter.hasClass "line-numbers" then
      return ⟨frame, ← code.children? "code", some (← gutter.children? "div")⟩
    else none
  | _ => none

/-- The listing that a text is the markup of. -/
def ofText? (text : String) : Option Page := do
  match ← elements? (← lexemes? text.toList) with
  | [frame] => ofFrame? frame
  | _ => none

end Page

/-- The row that stands for numbers passed over. -/
def NumberRange.row (r : NumberRange) : Element where
  name := "span"
  attributes := [("class", "line highlighted skipped-lines")]
  content := r.readable.toList.map .char ++
    Lexeme.element "span" [("class", "skipped-lines-icon")] []

namespace ListingLine

/-- The row of a line. -/
def row (l : ListingLine StylePair) : Element where
  name := "span"
  attributes := [("class", l.note.classes)]
  content := (l.fragments.flatMap Fragment.markup).flatMap Piece.lexemes

/-- The rows that a line has in the code: the numbers that it passes over, then itself. -/
def rows (l : ListingLine StylePair) : List Element := l.note.skipped.map NumberRange.row ++ [l.row]

end ListingLine

/-- The row of the gutter as it is found on a page. -/
def GutterRow.row (row : GutterRow) : Element where
  name := "span"
  attributes :=
    match row with
    | .number _ => []
    | .skipped _ => [("class", "skipped-lines")]
  content := row.readable.toList.map .char

/-- What there is to be found of a listing. -/
def Listing.page (l : Listing StylePair) : Page where
  frame := {
    name := "pre"
    attributes := (listingAttributes l.language l.group l.anyFocused).map fun (name, value) =>
      (name, value.content)
    content := (element "code" [] (l.lines.flatMap ListingLine.markup) ++ l.gutter).flatMap
      Piece.lexemes }
  rows := l.lines.flatMap ListingLine.rows
  gutter := if l.anyNumbered then some (l.gutterRows.map GutterRow.row) else none

end CodeListing
