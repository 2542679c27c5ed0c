import CodeListing.Text.Numeral

/-!
# Writing JSON

Values are written without blanks.  In a text, the quote, the backslash and the control characters
are escaped, and nothing else.
-/

namespace CodeListing.Json.Writer

/-- A character of a text, escaped where it has to be. -/
def escape (c : Char) : List Char :=
  match c with
  | '"' => ['\\', '"']
  | '\\' => ['\\', '\\']
  | '\x08' => ['\\', 'b']
  | '\x0c' => ['\\', 'f']
  | '\n' => ['\\', 'n']
  | '\r' => ['\\', 'r']
  | '\t' => ['\\', 't']
  | c =>
    if c.toNat < 0x20 then
      ['\\', 'u', '0', '0', Text.hexDigit (c.toNat / 16), Text.hexDigit (c.toNat % 16)]
    else
      [c]

/-- A text as a literal. -/
def text (s : String) : String := "\"" ++ String.ofList (s.toList.flatMap escape) ++ "\""

/-- `true` or `false`. -/
def bool (b : Bool) : String := if b then "true" else "false"

/-- A number. -/
def number (n : Nat) : String := n.repr

/-- A value, or `null` if there is none. -/
def nullable {α : Type} (value : α → String) : Option α → String
  | some a => value a
  | none => "null"

/-- An object, with its values already written. -/
def object (members : List (String × String)) : String :=
  "\x7b" ++ ",".intercalate (members.map fun (name, value) => text name ++ ":" ++ value) ++ "\x7d"

end CodeListing.Json.Writer
