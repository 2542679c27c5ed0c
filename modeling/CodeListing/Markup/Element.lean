import CodeListing.Markup.Reader
import CodeListing.Text.WhiteSpace

/-!
# Elements of a page

`elements?` takes what is read of a text apart into the elements that stand in it side by side.  An
element reaches to the tag that closes it, with as many elements closed within as are opened within.
-/

namespace CodeListing.Markup

/-- An element, with what is read between its tags. -/
structure Element where
  name : String
  attributes : List (String × String)
  content : List Lexeme
  deriving DecidableEq, Repr

/-- The element as it is read. -/
def Element.lexemes (e : Element) : List Lexeme := Lexeme.element e.name e.attributes e.content

/-- What stands in front of the tag that closes the element around the `depth` open ones, and what
stands behind it. -/
def untilClosed : (depth : Nat) → List Lexeme → Option (List Lexeme × List Lexeme)
  | _, [] => none
  | 0, .closeTag _ :: ls => some ([], ls)
  | depth + 1, .closeTag name :: ls =>
    (untilClosed depth ls).map fun (within, rest) => (.closeTag name :: within, rest)
  | depth, .openTag name attributes :: ls =>
    (untilClosed (depth + 1) ls).map fun (within, rest) =>
      (.openTag name attributes :: within, rest)
  | depth, .char c :: ls =>
    (untilClosed depth ls).map fun (within, rest) => (.char c :: within, rest)

theorem length_of_untilClosed {depth : Nat} {ls within rest : List Lexeme}
    (closed : untilClosed depth ls = some (within, rest)) : rest.length < ls.length := by
  fun_induction untilClosed depth ls generalizing within with
  | case1 => cases closed
  | case2 =>
    cases closed
    simp
  | case3 _ _ _ ih | case4 _ _ _ _ ih | case5 _ _ _ ih =>
    obtain ⟨⟨inner, behind⟩, found, same⟩ := Option.map_eq_some_iff.1 closed
    cases same
    have shorter := ih found
    simp only [List.length_cons]
    omega

/-- The elements that stand side by side, if there is nothing else. -/
def elements? : List Lexeme → Option (List Element)
  | [] => some []
  | .openTag name attributes :: ls =>
    match _ : untilClosed 0 ls with
    | some (content, rest) => (elements? rest).map (⟨name, attributes, content⟩ :: ·)
    | none => none
  | _ => none
termination_by ls => ls.length
decreasing_by
  have shorter := length_of_untilClosed ‹_›
  simp only [List.length_cons]
  omega

namespace Element

/-- The elements within an element, if it has this name. -/
def children? (e : Element) (name : String) : Option (List Element) :=
  if e.name = name then elements? e.content else none

/-- The words of the attribute `class`. -/
def classes (e : Element) : List String :=
  (Text.words ((e.attributes.lookup "class").getD "").toList).map String.ofList

/-- Whether an element is of this class. -/
def hasClass (e : Element) (name : String) : Bool := e.classes.contains name

end Element

end CodeListing.Markup
