import CodeListing.Fence.Grammar
import CodeListing.Fence.Spans
import CodeListing.Line.Directive

/-!
# The grammar of directives

Which words are directives, and which ones (`Directive.Spells`).  The two words of signs are taken
as they stand.  Where a word is made of letters their case is ignored, but only that of the letters
`A` to `Z`: no other character stands for one of them.

Another way to read a directive, for comparison, is `Directive.ofSpans?`: where a word is none of
the short names, its first twelve bytes are compared with the long one, and what is behind them is
cut off.  The first of these cuts may be refused, as the word may be too short or have a character
across that place.  The second may not; the answer has two layers, and the outer one is empty if it
has failed.
-/

namespace CodeListing.Directive

open Fence (Numeral)

/-- The text is the name but for the case of the letters `A` to `Z`. -/
def InAsciiCase (name : String) (text : List Char) : Prop := text.map Char.toLower = name.toList

/-- The word is the directive. -/
inductive Spells : (word : List Char) → Directive → Prop
  | removed : Spells "--".toList .removed
  | added : Spells "++".toList .added
  | error {word : List Char} : InAsciiCase "error" word → Spells word .error
  | warning {word : List Char} : InAsciiCase "warning" word → Spells word .warning
  | highlight {word : List Char} : InAsciiCase "highlight" word → Spells word .highlight
  | focus {word : List Char} : InAsciiCase "focus" word → Spells word .focus
  | unnumbered {word : List Char} : InAsciiCase "no-line-numbers" word → Spells word .unnumbered
  | numbered {word : List Char} : InAsciiCase "line-numbers" word → Spells word (.numbered none)
  /-- The number is one of 64 bits, and there may be zeros in front of it. -/
  | numberedFrom {name digits : List Char} {n : UInt64} : InAsciiCase "line-numbers" name →
      Numeral digits n → Spells (name ++ '=' :: digits) (.numbered (some n))

/-! ## Directives cut at a byte offset -/

/-- The names with nothing behind them. -/
def shortNames : List (String × Directive) := [
  ("error", .error), ("warning", .warning), ("highlight", .highlight), ("focus", .focus),
  ("no-line-numbers", .unnumbered)]

/-- The directive that has the given text behind `line-numbers`.  The digits are looked at before the
number is read, which might have a sign. -/
def ofRest? (rest : List Char) : Option Directive :=
  match rest with
  | [] => some (.numbered none)
  | '=' :: number =>
    if number.all Char.isDigit then (Fence.readNumber number).map (.numbered ∘ some) else none
  | _ => none

/-- The directive of a word that begins with `line-numbers`. -/
def cutNumbered? (word : List Char) : Option (Option Directive) :=
  match Text.slice? word 0 12 with
  | none => some none
  | some name =>
    if Text.equalsIgnoringCase name "line-numbers".toList then
      (Text.slice? word 12 (Text.byteLength word)).map ofRest?
    else
      some none

/-- The directive that a word stands for. -/
def ofSpans? (word : String) : Option (Option Directive) :=
  if word = "--" then some (some .removed)
  else if word = "++" then some (some .added)
  else
    match shortNames.find? fun (name, _) => Text.equalsIgnoringCase word.toList name.toList with
    | some (_, directive) => some (some directive)
    | none => cutNumbered? word.toList

end CodeListing.Directive
