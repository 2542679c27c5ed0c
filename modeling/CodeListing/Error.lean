import CodeListing.Json.Reader
import CodeListing.Style.Color

/-!
# What can go wrong

One type for the failures of the whole library, from reading a theme to printing a block.  An error
keeps its cause; `Error.message` is its wording.
-/

namespace CodeListing

/-- A failure. -/
inductive Error
  /-- A file or the input could not be read. -/
  | unreadable (detail : String)
  /-- The JSON text of a theme could not be read. -/
  | json (fault : Json.Fault)
  /-- A destination for formatted text refused what was written to it. -/
  | format
  /-- A theme has a color that is none. -/
  | color (value reason : String)
  /-- A line of a block has a directive that there is not. -/
  | directive (word : String) (line : Nat)
  /-- Something was written while no destination was bound. -/
  | unbound
  /-- The tokenizer failed at a line. -/
  | tokenizer (detail : String)
  deriving DecidableEq, Repr

namespace Error

/-- What is said of a destination that refuses what is written to it. -/
def formatDetail : String := "an error occurred when formatting an argument"

/-- The underlying failure in words, if the error stands for one. -/
def source? : Error → Option String
  | .unreadable detail => some detail
  | .json fault => some fault.message
  | .format => some formatDetail
  | _ => none

/-- The error in words. -/
def message : Error → String
  | .unreadable detail => "I/O error: " ++ detail
  | .json fault => "JSON parsing error: " ++ fault.message
  | .format => "formatting error: " ++ formatDetail
  | .color value reason => "invalid hex color '" ++ value ++ "': " ++ reason
  | .directive word line => "unknown code line directive '" ++ word ++ "' on line " ++ line.repr
  | .unbound => "output buffer used before being associated with a destination"
  | .tokenizer detail => "tokenizer error: " ++ detail

end Error

/-- The color that a text names, or the error that says why it names none. -/
def Color.named (text : String) : Except Error Color :=
  match Color.ofText text with
  | .ok c => .ok c
  | .error fault => .error (.color text fault.reason)

end CodeListing
