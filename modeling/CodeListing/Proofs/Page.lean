import CodeListing.Listing.Page
import CodeListing.Proofs.Nesting

/-!
# A listing is found on its page

Whoever takes the text of a listing apart by its tags finds the listing's frame, the rows of its
code and those of its gutter (`Page.ofText?_markup`), and nothing else.
-/

namespace CodeListing

open Markup

namespace Markup

/-! ## Elements side by side -/

/-- Every element that is opened is closed again, and none is closed that was open before. -/
def Balanced (ls : List Lexeme) : Prop :=
  ∀ depth rest, untilClosed depth (ls ++ rest) =
    (untilClosed depth rest).map fun (within, behind) => (ls ++ within, behind)

theorem Balanced.nil : Balanced [] := by
  intro depth rest
  simp

theorem Balanced.char (c : Char) {ls : List Lexeme} (balanced : Balanced ls) :
    Balanced (.char c :: ls) := by
  intro depth rest
  rw [List.cons_append, untilClosed, balanced, Option.map_map]
  rfl

/-- Around what is balanced an element is balanced, too. -/
theorem Balanced.element (name : String) (attributes : List (String × String))
    {content ls : List Lexeme} (within : Balanced content) (behind : Balanced ls) :
    Balanced (Lexeme.element name attributes content ++ ls) := by
  intro depth rest
  have form : Lexeme.element name attributes content ++ ls ++ rest =
      .openTag name attributes :: (content ++ .closeTag name :: (ls ++ rest)) := by
    simp [Lexeme.element]
  rw [form, untilClosed, within, untilClosed, behind, Option.map_map, Option.map_map,
    Option.map_map]
  congr 1
  funext found
  simp [Lexeme.element]

theorem Nested.balanced {name : String} {ls : List Lexeme} (nested : Nested name ls) :
    Balanced ls := by
  induction nested with
  | nil => exact .nil
  | char c _ ih => exact ih.char c
  | element attributes _ _ within behind => exact within.element name attributes behind

theorem Balanced.flatMap {es : List Element} (balanced : ∀ e ∈ es, Balanced e.content) :
    Balanced (es.flatMap Element.lexemes) := by
  induction es with
  | nil => exact .nil
  | cons e es ih =>
    obtain ⟨first, others⟩ := List.forall_mem_cons.1 balanced
    exact first.element e.name e.attributes (ih others)

/-- The content of an element is read up to the tag that closes it, not up to one inside of it. -/
theorem untilClosed_balanced {content : List Lexeme} (balanced : Balanced content) (name : String)
    (rest : List Lexeme) :
    untilClosed 0 (content ++ .closeTag name :: rest) = some (content, rest) := by
  rw [balanced, untilClosed, Option.map_some]
  simp

/-- An element is read off the front if its content is balanced. -/
theorem elements?_cons (e : Element) (balanced : Balanced e.content) (rest : List Lexeme) :
    elements? (e.lexemes ++ rest) = (elements? rest).map (e :: ·) := by
  have form : e.lexemes ++ rest =
      .openTag e.name e.attributes :: (e.content ++ .closeTag e.name :: rest) := by
    simp [Element.lexemes, Lexeme.element]
  have closed := untilClosed_balanced balanced e.name rest
  rw [form, elements?]
  split
  · next content behind found =>
    rw [closed] at found
    cases found
    rfl
  · next found =>
    rw [closed] at found
    cases found

/-- Elements that stand side by side are found one after the other. -/
theorem elements?_flatMap {es : List Element} (balanced : ∀ e ∈ es, Balanced e.content) :
    elements? (es.flatMap Element.lexemes) = some es := by
  induction es with
  | nil => rw [List.flatMap_nil, elements?]
  | cons e es ih =>
    obtain ⟨first, others⟩ := List.forall_mem_cons.1 balanced
    rw [List.flatMap_cons, elements?_cons e first, ih others, Option.map_some]

/-- The children of an element are found if they are all that it holds. -/
theorem Element.children?_eq {e : Element} {name : String} {es : List Element}
    (named : e.name = name) (content : e.content = es.flatMap Element.lexemes)
    (balanced : ∀ e ∈ es, Balanced e.content) : e.children? name = some es := by
  rw [children?, if_pos named, content, elements?_flatMap balanced]

/-- The classes of an element are the words of its attribute for them. -/
theorem Element.classes_eq {e : Element} {value : String} {others : List (String × String)}
    (attributes : e.attributes = ("class", value) :: others) :
    e.classes = (Text.words value.toList).map String.ofList := by
  rw [classes, attributes]
  rfl

end Markup

/-! ## The rows of a listing -/

/-- The markup for numbers passed over is the row that is to be found for them. -/
theorem NumberRange.lexemes_skippedLine (r : NumberRange) :
    (skippedLine r).flatMap Piece.lexemes = r.row.lexemes := by
  have text : ([.literal "Skipped lines ", .number r.first, .literal " through ",
      .number r.last, .literal " "] : List Piece).flatMap Piece.lexemes =
        r.readable.toList.map .char := by
    unfold readable
    simp only [String.toList_append, List.map_append, List.append_assoc]
    rfl
  rw [skippedLine, lexemes_element, List.flatMap_append, lexemes_element, text]
  rfl

theorem NumberRange.balanced_row (r : NumberRange) : Balanced r.row.content := by
  have icon : Nested "span" (Lexeme.element "span" [("class", "skipped-lines-icon")] []) := by
    have alone : Nested "span"
        (Lexeme.element "span" [("class", "skipped-lines-icon")] [] ++ []) := .element _ .nil .nil
    rwa [List.append_nil] at alone
  exact ((Nested.chars _).append icon).balanced

namespace ListingLine

variable (l : ListingLine StylePair)

/-- The markup of a line is the rows that are to be found for it. -/
theorem lexemes_markup : l.markup.flatMap Piece.lexemes = l.rows.flatMap Element.lexemes := by
  rw [markup, rows, List.flatMap_append, List.flatMap_append, List.flatMap_assoc, lexemes_element,
    List.flatMap_map, List.flatMap_singleton]
  simp only [NumberRange.lexemes_skippedLine]
  rfl

theorem balanced_rows : ∀ row ∈ l.rows, Balanced row.content := by
  intro row member
  rcases List.mem_append.1 member with skipped | last
  · obtain ⟨r, -, rfl⟩ := List.mem_map.1 skipped
    exact r.balanced_row
  · obtain rfl := List.mem_singleton.1 last
    have code : Nested "span" ((l.fragments.flatMap Fragment.markup).flatMap Piece.lexemes) := by
      rw [List.flatMap_assoc]
      exact .flatMap Fragment.nested_markup _
    exact code.balanced

end ListingLine

namespace GutterRow

variable (row : GutterRow)

theorem lexemes_markup : row.markup.flatMap Piece.lexemes = row.row.lexemes := by
  cases row with
  | number n =>
    rw [markup, lexemes_element]
    simp [GutterRow.row, Element.lexemes, readable, Piece.lexemes, Piece.content]
  | skipped r =>
    rw [markup, lexemes_element]
    simp [GutterRow.row, Element.lexemes, readable, Piece.lexemes, Piece.content, Value.content]

theorem balanced_row : Balanced row.row.content := by
  have chars : Nested "span" row.row.content := Nested.chars _
  exact chars.balanced

end GutterRow

/-! ## The page -/

namespace Listing

variable (l : Listing StylePair)

/-- The element around the code, as it is found. -/
def codeElement : Element := ⟨"code", [], (l.page.rows).flatMap Element.lexemes⟩

/-- The gutter with these rows, as it is found. -/
def gutterElement (rows : List Element) : Element :=
  ⟨"div", [("class", "line-numbers"), ("aria-hidden", "true")], rows.flatMap Element.lexemes⟩

/-- In the frame there is the code, and the gutter if there is one. -/
theorem lexemes_frame :
    l.page.frame.content =
      (l.codeElement :: l.page.gutter.toList.map gutterElement).flatMap Element.lexemes := by
  have code : (element "code" [] (l.lines.flatMap ListingLine.markup)).flatMap Piece.lexemes =
      l.codeElement.lexemes := by
    rw [lexemes_element, List.flatMap_assoc]
    simp only [ListingLine.lexemes_markup, ← List.flatMap_assoc]
    rfl
  have gutter : l.gutter.flatMap Piece.lexemes =
      (l.page.gutter.toList.map gutterElement).flatMap Element.lexemes := by
    unfold Listing.gutter gutterMarkup page
    split
    · rw [lexemes_element, List.flatMap_assoc]
      simp [GutterRow.lexemes_markup, gutterElement, Element.lexemes, Value.content,
        List.flatMap_map]
    · rfl
  rw [List.flatMap_cons, ← code, ← gutter, ← List.flatMap_append]
  rfl

theorem balanced_rows : ∀ row ∈ l.page.rows, Balanced row.content := by
  intro row member
  obtain ⟨line, -, within⟩ := List.mem_flatMap.1 member
  exact line.balanced_rows row within

theorem balanced_gutterRows : ∀ rows ∈ l.page.gutter, ∀ row ∈ rows, Balanced row.content := by
  intro rows found row member
  unfold page at found
  simp only at found
  split at found
  · obtain rfl := Option.some.inj found
    obtain ⟨gutterRow, -, rfl⟩ := List.mem_map.1 member
    exact gutterRow.balanced_row
  · cases found

/-- What is in the frame is balanced, so that it can be told apart. -/
theorem balanced_frame :
    ∀ e ∈ l.codeElement :: l.page.gutter.toList.map gutterElement, Balanced e.content := by
  refine List.forall_mem_cons.2 ⟨.flatMap l.balanced_rows, fun e member => ?_⟩
  obtain ⟨rows, found, rfl⟩ := List.mem_map.1 member
  exact .flatMap (l.balanced_gutterRows rows (Option.mem_toList.1 found))

/-- In the frame of a listing its rows are found. -/
theorem ofFrame?_page : Page.ofFrame? l.page.frame = some l.page := by
  have children : l.page.frame.children? "pre" =
      some (l.codeElement :: l.page.gutter.toList.map gutterElement) :=
    Element.children?_eq rfl l.lexemes_frame l.balanced_frame
  have code : l.codeElement.children? "code" = some l.page.rows :=
    Element.children?_eq rfl rfl l.balanced_rows
  have whole : l.page = ⟨l.page.frame, l.page.rows, l.page.gutter⟩ := rfl
  rw [Page.ofFrame?, children]
  cases found : l.page.gutter with
  | none =>
    rw [found] at whole
    simp only [Option.toList_none, List.map_nil, Option.bind_eq_bind, Option.bind_some, code]
    exact congrArg some whole.symm
  | some gutter =>
    have classed : (gutterElement gutter).hasClass "line-numbers" = true := by
      rw [Element.hasClass, Element.classes_eq rfl]
      decide +kernel
    have rows : (gutterElement gutter).children? "div" = some gutter :=
      Element.children?_eq rfl rfl (l.balanced_gutterRows gutter found)
    rw [found] at whole
    simp only [Option.toList_some, List.map_cons, List.map_nil, Option.bind_eq_bind,
      Option.bind_some, code, classed, rows, if_true]
    exact congrArg some whole.symm

/-- **A listing is found on its page.** -/
theorem ofText?_markup : Page.ofText? (toText l.markup) = some l.page := by
  have lexemes : l.markup.flatMap Piece.lexemes = [l.page.frame].flatMap Element.lexemes := by
    rw [markup, lexemes_element, List.flatMap_singleton]
    rfl
  have frame : Balanced l.page.frame.content := by
    rw [lexemes_frame]
    exact .flatMap l.balanced_frame
  have elements := elements?_flatMap (List.forall_mem_singleton.2 frame)
  rw [Page.ofText?, lexemes?_toText l.allSound_markup, lexemes]
  simp only [Option.bind_eq_bind, Option.bind_some, elements, l.ofFrame?_page]

end Listing

end CodeListing
