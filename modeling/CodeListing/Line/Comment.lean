import CodeListing.Pattern
import CodeListing.Text.WhiteSpace

/-!
# Directive comments

A line of code may end in a comment for the listing, `// [!code …]`, whose words say how the line is
shown.  `DirectiveComment.split` takes it off.
-/

namespace CodeListing

/-- A line of code without its directive comment, and the words of the comment. -/
structure SplitLine where
  code : String
  words : List String
  deriving DecidableEq, Repr

namespace DirectiveComment

open Pattern

/-- A word of the comment with the white space in front of it. -/
def spacedWord : Pattern (List Char) := do
  let _ ← run1 Text.isWhiteSpace
  run1 fun c => !Text.isWhiteSpace c && c != ']'

/-- A directive comment that reaches up to the end of a line, read as its words. -/
def reading : Pattern (List (List Char)) := do
  word "//"
  let _ ← run1 Text.isWhiteSpace
  word "[!code"
  let words ← many1 spacedWord
  let _ ← run Text.isWhiteSpace
  word "]"
  lineEnd Text.isWhiteSpace
  return words

/-- The line without its directive comment.  Everything from the start of the comment on is taken
off; a line without such a comment stays as it is. -/
def split (line : String) : SplitLine :=
  match reading.find? line.toList with
  | some (code, words) => ⟨String.ofList code, words.map String.ofList⟩
  | none => ⟨line, []⟩

end DirectiveComment

end CodeListing
