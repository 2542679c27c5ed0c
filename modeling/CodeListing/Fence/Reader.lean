import CodeListing.Config
import CodeListing.Fence
import CodeListing.Pattern
import CodeListing.Text.CodePoints

/-!
# Reading info strings

An info string is searched for a language, behind which three options may follow in a fixed order,
each of them only if it is complete: the numbering of lines, ranges of highlighted lines, and a
group.  Whatever else the string holds is passed over.

Options are recognised in the digits of all scripts, and numbers are read in the digits `0` to `9`.
A first number that cannot be read is taken for zero, and a range that cannot be read is left out.
-/

namespace CodeListing.Fence

open Pattern

/-- The name of a language: Latin letters. -/
def languageName : Pattern (List Char) := run1 Text.isLatinLetter

/-- The numbering option: `:no-line-numbers` or `:line-numbers`, either with a number or without. -/
def numberingOption : Pattern LineNumbering := do
  word ":"
  let off ← optional (word "no-")
  word "line-numbers"
  let first ← optional do
    word "="
    run1 Text.isDecimalDigit
  return match off with
    | some () => .disabled
    | none => .from ((first.bind Text.readDecimal).getD 0)

/-- A number, or two of them with a dash in between. -/
def rangeText : Pattern (List Char × Option (List Char)) := do
  let first ← run1 Text.isDecimalDigit
  let last ← optional do
    word "-"
    run1 Text.isDecimalDigit
  return (first, last)

/-- The option for highlighted lines: ranges in braces, separated by commas. -/
def rangesOption : Pattern (List (List Char × Option (List Char))) := do
  word "\x7b"
  let range ← rangeText
  let ranges ← many do
    word ","
    rangeText
  word "\x7d"
  return range :: ranges

/-- The group option: a name in square brackets. -/
def groupOption : Pattern (List Char) := do
  word "["
  let group ← run1 Text.isWordCharacter
  word "]"
  return group

/-- The range that a text stands for, if its numbers can be read. -/
def readRange : List Char × Option (List Char) → Option NumberRange
  | (first, none) => (Text.readDecimal first).map fun n => NumberRange.between n n
  | (first, some last) => do
    let first ← Text.readDecimal first
    let last ← Text.readDecimal last
    return NumberRange.between first last

/-- A fence, `numbering` being what a fence without numbering option gets. -/
def reading (numbering : LineNumbering) : Pattern Fence := do
  let language ← languageName
  let option ← optional numberingOption
  let ranges ← optional rangesOption
  let group ← optional groupOption
  return {
    language := String.ofList language
    numbering := option.getD numbering
    highlighted := (ranges.getD []).filterMap readRange
    group := group.map String.ofList }

/-- The numbering of a block whose fence does not say. -/
def defaultNumbering (config : Config) : LineNumbering :=
  if config.numberLines then .from 0 else .disabled

/-- What an info string, which has no white space in it, says; nothing if it names no language. -/
def ofText? (config : Config) (info : String) : Option Fence :=
  ((reading (defaultNumbering config)).find? info.toList).map (·.2)

end CodeListing.Fence
