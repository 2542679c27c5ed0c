import CodeListing.Text.Occurrence

/-!
# Lines of a text

A line ends at `\n`, at `\r\n` or at a `\r` of its own.  `lines` cuts a text at its line endings;
the last line may lack its ending, and a text without any character has no line.

A text is made of lines, each with one of three endings, and of what stands behind the last ending
(`EndedLines`).  A text without any ending is all rest.  Another way to the lines, for comparison, is
`linesByReplacing`: `\r\n` is replaced by `\n` throughout, then `\r` is, and what comes of it is cut
at `\n`.
-/

namespace CodeListing.Text

/-- The text with every line ending written as `\n`. -/
def unifyLineEndings : List Char → List Char
  | '\r' :: '\n' :: cs => '\n' :: unifyLineEndings cs
  | '\r' :: cs => '\n' :: unifyLineEndings cs
  | c :: cs => c :: unifyLineEndings cs
  | [] => []

/-- The text without the line ending that closes it, if one does. -/
def dropFinalNewline (cs : List Char) : List Char :=
  if cs.getLast? = some '\n' then cs.dropLast else cs

/-- The lines of a text, without their endings. -/
def lines (content : List Char) : List (List Char) :=
  match dropFinalNewline (unifyLineEndings content) with
  | [] => []
  | text => text.splitOn '\n'

/-! ## The grammar of lines -/

/-- The ways in which a line ends. -/
inductive LineEnding
  | lf
  | cr
  | crlf
  deriving DecidableEq, Repr

/-- The characters of the ending. -/
def LineEnding.text : LineEnding → String
  | .lf => "\n"
  | .cr => "\r"
  | .crlf => "\r\n"

/-- No line ends in the text. -/
def Unbroken (text : List Char) : Prop := '\r' ∉ text ∧ '\n' ∉ text

instance (text : List Char) : Decidable (Unbroken text) := inferInstanceAs (Decidable (_ ∧ _))

/-- The lines of a text that have an ending, and the rest of it behind the last ending.  The two
characters of `\r\n` are never two endings. -/
inductive EndedLines : (text : List Char) → (ended : List (List Char × LineEnding)) →
    (rest : List Char) → Prop
  | rest {rest : List Char} : Unbroken rest → EndedLines rest [] rest
  | line {line text rest : List Char} {ending : LineEnding}
      {ended : List (List Char × LineEnding)} :
      Unbroken line → (ending = .cr → text.head? ≠ some '\n') → EndedLines text ended rest →
      EndedLines (line ++ (ending.text.toList ++ text)) ((line, ending) :: ended) rest

/-- The text of the lines and the rest, with `\n` for whatever ending a line has. -/
def withFeeds (ended : List (List Char × LineEnding)) (rest : List Char) : List Char :=
  ended.flatMap (fun (line, _) => line ++ ['\n']) ++ rest

/-- All lines of a text: those that have an ending, and the rest unless there is none. -/
def allLines (ended : List (List Char × LineEnding)) (rest : List Char) : List (List Char) :=
  ended.map (·.1) ++ if rest = [] then [] else [rest]

/-! ## Lines by replacement -/

/-- The text with every line ending replaced by `\n`, the ones of two characters first. -/
def replaceLineEndings (text : List Char) : List Char :=
  replaceAll ['\r'] ['\n'] (replaceAll ['\r', '\n'] ['\n'] text)

/-- The lines of a text whose line endings have been replaced. -/
def linesByReplacing (content : List Char) : List (List Char) :=
  let text := dropFinalNewline (replaceLineEndings content)
  if text.isEmpty then [] else text.splitOn '\n'

end CodeListing.Text
