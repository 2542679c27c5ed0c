import CodeListing.Fence.Reader

/-!
# The grammar of info strings

`Spells config info fence` is what it means for an info string to say what the fence holds.  The
language is the first run of letters.  Behind it each of three options is taken where the one before
it has ended, but only if it is complete there; a number that is missing from the numbering option
does not make that option incomplete.  Everything else in the string is passed over.  Without a
numbering option it is the configuration that says whether lines are numbered, and then from zero.

`ListsRanges` says where in an info string the list of highlighted lines is looked for, and
`RangeItem.Covers` which lines an item of it stands for.  Any decimal digits make an item, but it
stands for lines only if its numbers have 64 bits and are written in the digits `0` to `9`.
-/

namespace CodeListing.Fence

/-- A letter from `a` to `z` in any case; the long s and the Kelvin sign are an s and a k. -/
def IsLetter (c : Char) : Prop :=
  'A' ≤ c ∧ c ≤ 'Z' ∨ 'a' ≤ c ∧ c ≤ 'z' ∨ c = '\u017f' ∨ c = '\u212a'

/-- The characters of the word in any case. -/
def InAnyCase (word : String) (text : List Char) : Prop := text.map Text.foldCase = word.toList

/-- One or more digits, of whichever script. -/
def Digits (text : List Char) : Prop := text ≠ [] ∧ ∀ c ∈ text, Text.isDecimalDigit c = true

/-- The text is a decimal numeral of the number in the digits `0` to `9`. -/
def Numeral (text : List Char) (n : UInt64) : Prop :=
  text ≠ [] ∧ (∀ c ∈ text, c.isDigit = true) ∧ Nat.ofDigitChars 10 text 0 = n.toNat

/-- The number of which the text is a numeral, if there is one in 64 bits. -/
def Value (text : List Char) (value : Option UInt64) : Prop := ∀ n, value = some n ↔ Numeral text n

/-- The complete numbering options. -/
inductive NumberingOption : List Char → LineNumbering → Prop
  | on {option : List Char} : InAnyCase ":line-numbers" option → NumberingOption option (.from 0)
  | from {option digits : List Char} {first : Option UInt64} :
      InAnyCase ":line-numbers=" option → Digits digits → Value digits first →
      NumberingOption (option ++ digits) (.from (first.getD 0))
  | off {option : List Char} :
      InAnyCase ":no-line-numbers" option → NumberingOption option .disabled
  | offFrom {option digits : List Char} :
      InAnyCase ":no-line-numbers=" option → Digits digits →
      NumberingOption (option ++ digits) .disabled

/-- A range of lines and what it stands for: nothing if a number is too large or in other digits. -/
inductive RangeText : List Char → Option NumberRange → Prop
  | one {digits : List Char} {n : Option UInt64} : Digits digits → Value digits n →
      RangeText digits (n.map fun n => .between n n)
  | two {left right : List Char} {m n : Option UInt64} :
      Digits left → Value left m → Digits right → Value right n →
      RangeText (left ++ '-' :: right) (m.bind fun m => n.map fun n => .between m n)

/-- The complete options for highlighted lines: one or more ranges in braces, with commas between
them. -/
inductive RangesOption : List Char → List NumberRange → Prop
  | braces {ranges : List (List Char × Option NumberRange)} :
      ranges ≠ [] → (∀ range ∈ ranges, RangeText range.1 range.2) →
      RangesOption ('\x7b' :: [','].intercalate (ranges.map (·.1)) ++ ['\x7d'])
        (ranges.filterMap (·.2))

/-- The complete group options: word characters in brackets. -/
inductive GroupOption : List Char → String → Prop
  | brackets {name : List Char} :
      name ≠ [] → (∀ c ∈ name, Text.isWordCharacter c = true) →
      GroupOption ('[' :: name ++ [']']) (String.ofList name)

/-- What is taken of a text that may begin with an option, and what it says: the option, and no
shorter form of it, if it is complete there, and nothing otherwise. -/
inductive Taken {α : Type} (Complete : List Char → α → Prop) :
    (text : List Char) → Option α → (rest : List Char) → Prop
  | whole {option rest : List Char} {a : α} : Complete option a →
      (∀ longer rest' b, longer ++ rest' = option ++ rest → Complete longer b →
        longer.length ≤ option.length) →
      Taken Complete (option ++ rest) (some a) rest
  | absent {text : List Char} : (∀ option rest a, text = option ++ rest → ¬ Complete option a) →
      Taken Complete text none text

/-- The info string says what the fence holds. -/
inductive Spells (config : Config) : (info : List Char) → Fence → Prop
  | fence {before language behind₁ behind₂ behind₃ behind₄ : List Char}
      {numbering : Option LineNumbering} {ranges : Option (List NumberRange)}
      {group : Option String} :
      (∀ c ∈ before, ¬ IsLetter c) →
      language ≠ [] → (∀ c ∈ language, IsLetter c) → (∀ c ∈ behind₁.head?, ¬ IsLetter c) →
      Taken NumberingOption behind₁ numbering behind₂ →
      Taken RangesOption behind₂ ranges behind₃ →
      Taken GroupOption behind₃ group behind₄ →
      Spells config (before ++ language ++ behind₁) {
        language := String.ofList language
        numbering := numbering.getD (if config.numberLines then .from 0 else .disabled)
        highlighted := ranges.getD []
        group }

/-! ## Lists of ranges as they are written -/

/-- An item of a list of ranges, by the digits of its numbers. -/
inductive RangeItem
  | one (number : List Char)
  | two (left right : List Char)
  deriving DecidableEq, Repr

namespace RangeItem

/-- The item as it is written. -/
def text : RangeItem → List Char
  | one number => number
  | two left right => left ++ '-' :: right

/-- The two numbers of the item; a single number is both. -/
def ends : RangeItem → List Char × List Char
  | one number => (number, number)
  | two left right => (left, right)

/-- The item with its numbers the other way round. -/
def swap : RangeItem → RangeItem
  | one number => one number
  | two left right => two right left

/-- The numbers of the item are made of decimal digits. -/
def WellFormed (item : RangeItem) : Prop := Digits item.ends.1 ∧ Digits item.ends.2

/-- The numbers of the item can be read. -/
def Readable (item : RangeItem) : Prop :=
  ∃ a b : UInt64, Numeral item.ends.1 a ∧ Numeral item.ends.2 b

/-- The numbers of the item can be read, and the place is between them. -/
def Covers (item : RangeItem) (place : Nat) : Prop :=
  ∃ a b : UInt64, Numeral item.ends.1 a ∧ Numeral item.ends.2 b ∧
    min a.toNat b.toNat ≤ place ∧ place ≤ max a.toNat b.toNat

end RangeItem

/-- Behind the language of the info string or, if it has one, behind its numbering option, the items
stand in braces with commas between them. -/
inductive ListsRanges (items : List RangeItem) : (info : List Char) → Prop
  | braces {before language option rest : List Char} :
      (∀ c ∈ before, ¬ IsLetter c) → language ≠ [] → (∀ c ∈ language, IsLetter c) →
      (option = [] ∨ ∃ numbering, NumberingOption option numbering) →
      items ≠ [] → (∀ item ∈ items, item.WellFormed) →
      ListsRanges items (before ++ (language ++ (option ++
        ('\x7b' :: [','].intercalate (items.map (·.text)) ++ '\x7d' :: rest))))

/-- The readable items of the first list are in the second one, whichever way round. -/
def ItemsIn (items items' : List RangeItem) : Prop :=
  ∀ item ∈ items, item.Readable → item ∈ items' ∨ item.swap ∈ items'

end CodeListing.Fence
