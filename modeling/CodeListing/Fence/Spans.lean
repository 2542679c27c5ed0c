import CodeListing.Fence.Reader
import CodeListing.Regex

/-!
# Info strings cut at the spans of a regular expression

Another way to read an info string, for comparison: the string is searched with one regular
expression, and what the fence says is cut out of it at the spans that the groups have noted.  A cut
may fail, so `ofSpans?` answers in two layers; the outer one is empty if a cut has failed.
-/

namespace CodeListing.Fence

open Regex

/-- `\d+` -/
def digitsRegex : Regex := plus (one Text.isDecimalDigit)

/-- `:((?:no-)?line-numbers(?:=(\d+))?)` -/
def numberingRegex : Regex :=
  seq (word ":") <| capture 2 <|
    seq (optional (word "no-")) <|
    seq (word "line-numbers") <|
    optional (seq (word "=") (capture 3 digitsRegex))

/-- `\d+(?:-\d+)?` -/
def rangeRegex : Regex := seq digitsRegex (optional (seq (word "-") digitsRegex))

/-- `\{(\d+(?:-\d+)?(?:,\d+(?:-\d+)?)*)\}` -/
def rangesRegex : Regex :=
  seq (word "\x7b") <|
    seq (capture 4 (seq rangeRegex (many (seq (word ",") rangeRegex)))) (word "\x7d")

/-- `\[(\w+)\]` -/
def groupRegex : Regex :=
  seq (word "[") <| seq (capture 5 (plus (one Text.isWordCharacter))) (word "]")

/-- `([a-z]+)` and the three options, all of it in any case. -/
def infoRegex : Regex :=
  seq (capture 1 (plus (one Text.isLatinLetter))) <|
    seq (optional numberingRegex) <| seq (optional rangesRegex) (optional groupRegex)

/-- The text of a group, if it has read any; without the outer layer if its span cannot be cut out
of the info string. -/
def groupText? (info : List Char) (found : Place) (number : Nat) : Option (Option (List Char)) :=
  match found.groups number with
  | none => some none
  | some (start, stop) => (Text.slice? info start stop).map some

/-- A number of 64 bits in decimal, with or without a plus sign. -/
def readNumber : (cs : List Char) → Option UInt64
  | '+' :: cs => Text.readDecimal cs
  | cs => Text.readDecimal cs

/-- The range of a text, which is cut around its first dash; nothing if a number cannot be read. -/
def cutRange? (text : List Char) : Option (Option NumberRange) :=
  if '-' ∈ text then do
    let dash := Text.byteLength (text.takeWhile (· != '-'))
    let first ← Text.slice? text 0 dash
    match readNumber first with
    | none => some none
    | some first => do
      let last ← Text.slice? text (dash + 1) (Text.byteLength text)
      return (readNumber last).map (NumberRange.between first)
  else
    return (readNumber text).map fun n => NumberRange.between n n

/-- The numbering of the option, if there is one: its first three bytes tell whether it is off, and
its number, if it has one that can be read, where it starts. -/
def cutNumbering? (config : Config) (option number : Option (List Char)) : Option LineNumbering :=
  match option with
  | none => some (if config.numberLines then .from 0 else .disabled)
  | some option => do
    let sign ← Text.slice? option 0 3
    return if Text.equalsIgnoringCase sign "no-".toList then .disabled
      else .from ((number.bind readNumber).getD 0)

/-- What the info string says by the spans that were noted in it. -/
def ofPlace? (config : Config) (info : List Char) (found : Place) : Option (Option Fence) := do
  let language ← groupText? info found 1
  let option ← groupText? info found 2
  let number ← groupText? info found 3
  let ranges ← groupText? info found 4
  let group ← groupText? info found 5
  let numbering ← cutNumbering? config option number
  let highlighted ← ((ranges.map (·.splitOn ',')).getD []).mapM cutRange?
  return language.map fun language =>
    { language := String.ofList language
      numbering
      highlighted := highlighted.filterMap id
      group := group.map String.ofList }

/-- What an info string says by the spans of its leftmost reading. -/
def ofSpans? (config : Config) (info : List Char) : Option (Option Fence) :=
  match infoRegex.search? info with
  | none => some none
  | some found => ofPlace? config info found

end CodeListing.Fence
