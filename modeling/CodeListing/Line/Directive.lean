import CodeListing.Text.Letters
import CodeListing.Text.Numeral

/-!
# Directives

The words of a directive comment, and the mark that they give to a line.

Marks are ordered: a weaker one does not replace a stronger one.  The two marks of a difference are
the strongest, and of these the first that is given stays.
-/

namespace CodeListing

/-- What a line asks for. -/
inductive Directive
  | error
  | warning
  | removed
  | added
  | highlight
  | focus
  /-- No numbers from this line on. -/
  | unnumbered
  /-- Numbers from this line on, counting on from `first` if it is given. -/
  | numbered (first : Option UInt64)
  deriving DecidableEq, Repr

namespace Directive

/-- The directives that are words of letters. -/
def named : List (String × Directive) := [
  ("error", .error), ("warning", .warning), ("highlight", .highlight), ("focus", .focus),
  ("no-line-numbers", .unnumbered), ("line-numbers", .numbered none)]

/-- The number behind `line-numbers=` in any case. -/
def firstNumber? (word : List Char) : Option UInt64 :=
  let option := "line-numbers=".toList
  if Text.equalsIgnoringCase (word.take option.length) option then
    Text.readDecimal (word.drop option.length)
  else
    none

/-- The directive that a word stands for, if there is one.  Case is ignored. -/
def ofText? (word : String) : Option Directive :=
  if word = "--" then some .removed
  else if word = "++" then some .added
  else
    match named.find? fun (name, _) => Text.equalsIgnoringCase word.toList name.toList with
    | some (_, directive) => some directive
    | none => (firstNumber? word.toList).map (.numbered ∘ some)

end Directive

/-- How a line is set off from the others. -/
inductive LineMark
  | plain
  | highlighted
  | warning
  | error
  | added
  | removed
  deriving DecidableEq, Repr

namespace LineMark

/-- The mark of a line after one more directive. -/
def after (mark : LineMark) : Directive → LineMark
  | .error => match mark with
    | .added => .added
    | .removed => .removed
    | _ => .error
  | .warning => match mark with
    | .plain => .warning
    | .highlighted => .warning
    | mark => mark
  | .highlight => match mark with
    | .plain => .highlighted
    | mark => mark
  | .removed => match mark with
    | .added => .added
    | _ => .removed
  | .added => match mark with
    | .removed => .removed
    | _ => .added
  | _ => mark

/-- The classes of the line's element, each with a blank in front. -/
def classes : LineMark → String
  | .plain => ""
  | .highlighted => " highlighted"
  | .warning => " highlighted warning"
  | .error => " highlighted error"
  | .added => " highlighted diff add"
  | .removed => " highlighted diff remove"

end LineMark

end CodeListing
