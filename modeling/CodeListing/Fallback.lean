import CodeListing.CodeBlock
import CodeListing.Error
import CodeListing.Markup

/-!
# Blocks that are not highlighted

The reasons for which a block is shown as plain text, and the functions that show it.  A `Notice`
says what has happened to a block without being a failure, for whoever looks for the reason of what
is shown.
-/

namespace CodeListing

/-- Why a block is not highlighted. -/
inductive FallbackReason
  /-- It is no fenced block. -/
  | notFenced
  /-- Its fence names no language. -/
  | noLanguage
  /-- There is no grammar for its language. -/
  | noGrammar (language : String)
  deriving DecidableEq, Repr

/-- The reason in words. -/
def FallbackReason.message : FallbackReason → String
  | .notFenced => "not a fenced code block"
  | .noLanguage => "unrecognized info string"
  | .noGrammar language => "no grammar found for language `" ++ language ++ "`"

/-- Shows blocks that cannot be highlighted: what it writes for a block, and the failure that it may
end in.  What was written before a failure stays. -/
def Fallback : Type := CodeBlock → String × Except Error Unit

namespace Fallback

/-- The lines of a block as text, with line ends between them. -/
def linePieces : List String → List Markup.Piece
  | [] => []
  | [line] => [.text line]
  | line :: lines => .text line :: .literal "\n" :: linePieces lines

/-- The code as it is, in the element for code, whose class names the first word on the fence. -/
def plainMarkup (b : CodeBlock) : List Markup.Piece :=
  let classes := match b.info with
    | some info => [("class", .foreign ("language-" ++ info))]
    | none => []
  Markup.element "pre" [] (Markup.element "code" classes (linePieces b.lines))

/-- Shows the code as it is. -/
def plain : Fallback := fun b => (Markup.toText (plainMarkup b), .ok ())

end Fallback

/-- Something worth a note in a log. -/
inductive Notice
  /-- An info string names no language. -/
  | noLanguage (info : String)
  /-- A block is shown as plain text. -/
  | plain (reason : FallbackReason)
  /-- A token is left out, because its span cuts nothing out of its line. -/
  | strayToken (start stop : Nat) (line : Nat) (bytes : Nat)
  deriving DecidableEq, Repr

/-- The notice in words. -/
def Notice.message : Notice → String
  | .noLanguage info => "Could not find a language in info string `" ++ info ++ "`"
  | .plain reason => "Rendering code block as plain text: " ++ reason.message
  | .strayToken start stop line bytes =>
    "Skipping token " ++ start.repr ++ ".." ++ stop.repr ++ " not matching line " ++ line.repr ++
      " of length " ++ bytes.repr

end CodeListing
