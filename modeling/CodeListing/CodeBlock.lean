import Std.Data.TreeMap
import CodeListing.Text.Lines
import CodeListing.Text.WhiteSpace

/-!
# Code blocks

A code block as the reader of a document finds it: its lines, and for a fenced block the words on
its fence.  Data can be attached to a block for whoever handles it next.

`FenceLine text first others` is what it means for the line on a fence to have a first word and
others behind it.  How much white space there is around them, and which, is left open.  There may be
more of it among the others.
-/

namespace CodeListing

/-- How a block is set off from the document. -/
inductive BlockKind
  /-- Between fences. -/
  | fenced
  /-- By indentation; such a block is never highlighted. -/
  | indented
  deriving DecidableEq, Repr

/-- A code block. -/
structure CodeBlock where
  kind : BlockKind
  /-- The first word on the fence. -/
  info : Option String
  /-- What follows the first word on the fence. -/
  arguments : Option String
  lines : List String
  /-- What has been attached to the block. -/
  data : Std.TreeMap String String

namespace CodeBlock

/-- The key under which the group of a block is attached to it. -/
def groupKey : String := "code-group-block-name"

/-- A text, if it is not empty. -/
def nonEmpty? (cs : List Char) : Option String :=
  if cs.isEmpty then none else some (String.ofList cs)

/-- The lines of a text. -/
def linesOf (content : String) : List String := (Text.lines content.toList).map String.ofList

/-- The block between fences with this line on the first of them. -/
def fenced (infoLine content : String) : CodeBlock :=
  let line := Text.trim infoLine.toList
  let (info, others) := line.span (!Text.isWhiteSpace ·)
  { kind := .fenced
    info := nonEmpty? info
    arguments := nonEmpty? (Text.trim others)
    lines := linesOf content
    data := ∅ }

/-- The block made by indentation. -/
def indented (content : String) : CodeBlock where
  kind := .indented
  info := none
  arguments := none
  lines := linesOf content
  data := ∅

/-- The words on the fence as one string: blanks are left out, and so is every occurrence of
`infoPrefix`. -/
def infoString (b : CodeBlock) (infoPrefix : Option String) : String :=
  let words := (b.info.toList ++ b.arguments.toList).flatMap (·.toList)
  String.ofList (Text.eraseAll ((infoPrefix.getD "").toList) (words.filter (· != ' ')))

/-- Attaches a value to the block, in place of the one that the key may have. -/
def attach (b : CodeBlock) (key value : String) : CodeBlock :=
  { b with data := b.data.insert key value }

/-- The value attached under a key. -/
def attached? (b : CodeBlock) (key : String) : Option String := b.data[key]?

/-- The group of the block. -/
def group? (b : CodeBlock) : Option String := b.attached? groupKey

end CodeBlock

/-- The text begins with the word `first`, and `others` stands apart from it; around both of them
there is nothing but white space. -/
structure FenceLine (text first others : List Char) : Prop where
  placed : ∃ before gap behind, text = before ++ (first ++ (gap ++ (others ++ behind))) ∧
    (∀ c ∈ before ++ (gap ++ behind), Text.isWhiteSpace c = true) ∧ (others ≠ [] → gap ≠ [])
  word : Text.Unspaced first
  leads : others ≠ [] → first ≠ []
  starts : ∀ c ∈ others.head?, Text.isWhiteSpace c = false
  ends : ∀ c ∈ others.getLast?, Text.isWhiteSpace c = false

end CodeListing
