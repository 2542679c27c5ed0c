import CodeListing.Fence.Grammar
import CodeListing.Line.Comment
import CodeListing.Regex

/-!
# The grammar of directive comments

`Comment text words` is what it means for a text to be a directive comment with these words, and
`TakenOff line result` what it means for a line to come to a result: of the directive comments that
the line ends in the longest is taken off, which leaves the least code.

A line may end in several comments at once, for a word may be anything that has neither white space
nor a closing bracket in it, two slashes and the beginning of a comment included.

A text that is taken for a line may hold the ends of several.  At the first of them that a directive
comment stands in front of, the text is cut: `CutAt` says what it comes to, and what is lost with
the comment.  `OnlyCommentGone` says that nothing is.

Another way to take a directive comment off a line, for comparison, is `ofSpans?`: the line is
searched with one regular expression, behind which a line has to end.  The code and the text of the
words are cut out at the spans that were noted, and the text of the words is cut once more at its
white space.
-/

namespace CodeListing.DirectiveComment

/-- Some white space. -/
def Space (text : List Char) : Prop := text ≠ [] ∧ ∀ c ∈ text, Text.isWhiteSpace c = true

/-- A word of a comment. -/
def Word (text : List Char) : Prop :=
  text ≠ [] ∧ ∀ c ∈ text, Text.isWhiteSpace c = false ∧ c ≠ ']'

-- `List.all` keeps to the characters of the text, where other instances go through all there are
instance (text : List Char) : Decidable (Word text) :=
  decidable_of_iff (text ≠ [] ∧ text.all (fun c => !Text.isWhiteSpace c && c != ']') = true)
    (by simp [Word])

/-- Words with white space in front of each. -/
inductive SpacedWords : List Char → List (List Char) → Prop
  | nil : SpacedWords [] []
  | cons {space word text : List Char} {words : List (List Char)} :
      Space space → Word word → SpacedWords text words →
      SpacedWords (space ++ (word ++ text)) (word :: words)

/-- The directive comments up to their closing bracket. -/
inductive Closed : List Char → List (List Char) → Prop
  | closed {space name text inner : List Char} {words : List (List Char)} :
      Space space → Fence.InAnyCase "[!code" name → SpacedWords text words → words ≠ [] →
      (∀ c ∈ inner, Text.isWhiteSpace c = true) →
      Closed ('/' :: '/' :: (space ++ (name ++ (text ++ (inner ++ [']']))))) words

/-- The directive comments. -/
inductive Comment : List Char → List (List Char) → Prop
  | comment {text outer : List Char} {words : List (List Char)} :
      Closed text words → (∀ c ∈ outer, Text.isWhiteSpace c = true) → Comment (text ++ outer) words

/-- What a line comes to when its directive comment is taken off. -/
inductive TakenOff (line : List Char) : SplitLine → Prop
  /-- The line ends in a comment, and behind no shorter part of it there is one. -/
  | comment {code comment : List Char} {words : List (List Char)} :
      line = code ++ comment → Comment comment words →
      (∀ code' comment' words', line = code' ++ comment' → Comment comment' words' →
        code.length ≤ code'.length) →
      TakenOff line ⟨String.ofList code, words.map String.ofList⟩
  /-- No part of the line up to its end is a comment. -/
  | absent : (∀ code comment words, line = code ++ comment → ¬ Comment comment words) →
      TakenOff line ⟨String.ofList line, []⟩

/-- The mark of directive comments stands nowhere in the text. -/
def Unmarked (text : List Char) : Prop :=
  ∀ front name behind, text = front ++ (name ++ behind) → ¬ Fence.InAnyCase "[!code" name

/-- In the folded text the mark is looked for as it is written. -/
theorem unmarked_iff {text : List Char} :
    Unmarked text ↔ ¬ "[!code".toList <:+: text.map Text.foldCase := by
  constructor
  · rintro unmarked ⟨before, after, same⟩
    obtain ⟨head, behind, rfl, same, _⟩ := List.map_eq_append_iff.1 same.symm
    obtain ⟨front, name, rfl, _, named⟩ := List.map_eq_append_iff.1 same
    exact unmarked front name behind (List.append_assoc ..) named
  · rintro none front name behind rfl named
    refine none ⟨front.map Text.foldCase, behind.map Text.foldCase, ?_⟩
    rw [← named, ← List.map_append, ← List.map_append, List.append_assoc]

/-- The comment that gives the words, as one writes it. -/
def written (words : List String) : String := "// [!code " ++ " ".intercalate words ++ "]"

/-! ## What is lost behind a comment -/

/-- Nothing is gone from the text, or a directive comment that the text ends in. -/
def OnlyCommentGone (text : List Char) (result : SplitLine) : Prop :=
  (result.code.toList = text ∧ result.words = []) ∨
    ∃ comment, text = result.code.toList ++ comment ∧
      Comment comment (result.words.map String.toList)

/-- In front of the text a line may end. -/
def EndsLine (behind : List Char) : Prop := behind = [] ∨ ∃ more, behind = '\n' :: more

/-- Behind the code, the text has a comment with these words at the end of a line. -/
structure CommentAt (text code comment : List Char) (words : List (List Char))
    (behind : List Char) : Prop where
  text : text = code ++ (comment ++ behind)
  comment : Comment comment words
  ends : EndsLine behind

/-- What a text comes to that may hold the ends of several lines. -/
inductive CutAt (text : List Char) (result : SplitLine) (lost : List Char) : Prop
  /-- Behind no shorter part of the text there is a comment at the end of a line, and none that
  begins here reaches further. -/
  | comment {comment : List Char} :
      CommentAt text result.code.toList comment (result.words.map String.toList) lost →
      (∀ code' comment' words' behind', CommentAt text code' comment' words' behind' →
        result.code.toList.length ≤ code'.length) →
      (∀ comment' words' behind', CommentAt text result.code.toList comment' words' behind' →
        lost.length ≤ behind'.length) →
      CutAt text result lost
  /-- At no end of a line there is a comment. -/
  | absent : (∀ code comment words behind, ¬ CommentAt text code comment words behind) →
      result.code.toList = text → result.words = [] → lost = [] → CutAt text result lost

/-! ## Lines cut at the spans of a regular expression -/

open Regex

/-- `\s+[^\s\]]+` -/
def spacedWordRegex : Regex :=
  seq (plus (one Text.isWhiteSpace)) (plus (one fun c => !Text.isWhiteSpace c && c != ']'))

/-- `//\s+\[!code((?:\s+[^\s\]]+)+)\s*\]` in any case. -/
def closedRegex : Regex :=
  seq (word "//") <| seq (plus (one Text.isWhiteSpace)) <| seq (word "[!code") <|
    seq (capture 1 (plus spacedWordRegex)) <| seq (many (one Text.isWhiteSpace)) (word "]")

/-- A directive comment and the white space behind it, at the end of which a line has to end. -/
def commentRegex : Regex := capture 0 (seq closedRegex (many (one Text.isWhiteSpace)))

/-- The line without its directive comment, and the words of the comment, by the spans of the
leftmost reading; nothing if a span cannot be cut out of the line. -/
def ofSpans? (line : String) : Option SplitLine :=
  match commentRegex.searchLine? line.toList with
  | none => some ⟨line, []⟩
  | some found =>
    match found.groups 0, found.groups 1 with
    | some (start, _), some (first, last) => do
      let code ← Text.slice? line.toList 0 start
      let inside ← Text.slice? line.toList first last
      return ⟨String.ofList code, (Text.words inside).map String.ofList⟩
    | _, _ => some ⟨line, []⟩

end CodeListing.DirectiveComment
