import CodeListing.Proofs.InfoString

/-!
# Info strings in normal form

`Fence.toText` writes a fence as an info string, and reading that string gives the fence back,
whatever the configuration: the normal form always has a numbering option, so that no default is
asked for.  This holds of every fence that is `Readable`, and the readable fences are those that can
be read of an info string at all (`readable_iff`).

Each option is followed here: where its text stands in front of the texts of the options behind it,
that text and no more is scanned, and what it says is what was written.
-/

namespace CodeListing.Fence

open Pattern

/-- The names in the fence are such as can be read: its language is made of letters, and its group,
if it has one, of word characters. -/
structure Readable (fence : Fence) : Prop where
  named : fence.language ≠ ""
  letters : ∀ c ∈ fence.language.toList, Text.isLatinLetter c = true
  group : ∀ name ∈ fence.group, name ≠ "" ∧ ∀ c ∈ name.toList, Text.isWordCharacter c = true

/-! ## What is read is readable -/

/-- What is read of an info string is what its grammar says. -/
theorem spells_of_ofText? {config : Config} {info : String} {fence : Fence}
    (read : ofText? config info = some fence) : Spells config info.toList fence := by
  obtain ⟨⟨front, _⟩, found, rfl⟩ := Option.map_eq_some_iff.1 read
  obtain ⟨before, text, rest, same, _, outside, scanned⟩ :=
    ((starts_reading config).findFrom_eq_some_iff []).1 found
  rw [same]
  exact spells_of_scan outside scanned

/-- The name of a group that is read has word characters only, and some. -/
theorem GroupOption.wordCharacters {option : List Char} {name : String}
    (complete : GroupOption option name) :
    name ≠ "" ∧ ∀ c ∈ name.toList, Text.isWordCharacter c = true := by
  cases complete with
  | brackets some all =>
    rw [String.toList_ofList]
    exact ⟨fun empty => some (String.ofList_eq_empty_iff.1 empty), all⟩

theorem Taken.complete {α : Type} {Complete : List Char → α → Prop} {text rest : List Char} {a : α}
    (taken : Taken Complete text (some a) rest) : ∃ option, Complete option a := by
  cases taken with
  | whole complete _ => exact ⟨_, complete⟩

/-- A fence that an info string spells can be written so that it is read again. -/
theorem Spells.readable {config : Config} {info : List Char} {fence : Fence}
    (spells : Spells config info fence) : fence.Readable := by
  cases spells with
  | fence _ some letters _ _ _ takes =>
    constructor
    · exact fun empty => some (String.ofList_eq_empty_iff.1 empty)
    · intro c mem
      rw [String.toList_ofList] at mem
      exact isLetter_iff.1 (letters c mem)
    · intro name mem
      cases mem
      obtain ⟨_, complete⟩ := takes.complete
      exact complete.wordCharacters

/-! ## The texts of the options -/

/-- The option for highlighted lines in its normal form. -/
def rangesText (ranges : List NumberRange) : List Char :=
  if ranges.isEmpty then []
  else '\x7b' :: [','].intercalate (ranges.map (·.toText.toList)) ++ ['\x7d']

/-- The group option in its normal form. -/
def groupText : Option String → List Char
  | none => []
  | some name => '[' :: name.toList ++ [']']

/-- The text of a fence is that of its parts, the numbering always among them. -/
theorem toList_toText (fence : Fence) :
    fence.toText.toList = fence.language.toList ++ (fence.numbering.toText.toList ++
      (rangesText fence.highlighted ++ groupText fence.group)) := by
  obtain ⟨language, numbering, ranges, group⟩ := fence
  cases ranges <;> cases group <;>
    simp [toText, rangesText, groupText, String.toList_intercalate, Function.comp_def]

theorem toText_from (n : UInt64) :
    (LineNumbering.from n).toText = ":line-numbers=" ++ Text.decimal n := rfl

theorem head_numbering (numbering : LineNumbering) :
    ∃ tail, numbering.toText.toList = ':' :: tail := by
  cases numbering with
  | disabled => exact ⟨_, rfl⟩
  | «from» n =>
    rw [toText_from, String.toList_append]
    exact ⟨_, rfl⟩

theorem head_options (ranges : List NumberRange) (group : Option String) :
    ∀ c ∈ (rangesText ranges ++ groupText group).head?, c = '\x7b' ∨ c = '[' := by
  cases ranges <;> cases group <;> simp [rangesText, groupText]

/-! ## Scanning them -/

theorem digits_decimal (n : UInt64) : Digits (Text.decimal n).toList := by
  obtain ⟨some, digits, _⟩ := Text.readDecimal_eq_some_iff.1 (Text.readDecimal_decimal n)
  exact digits_of_isDigit some digits

theorem value_decimal (n : UInt64) : Value (Text.decimal n).toList (some n) :=
  value_iff.2 (Text.readDecimal_decimal n).symm

/-- What is written of a numbering is an option that asks for it. -/
theorem numberingOption_toText (numbering : LineNumbering) :
    NumberingOption numbering.toText.toList numbering := by
  cases numbering with
  | disabled => exact .off rfl
  | «from» n =>
    have name : InAnyCase ":line-numbers=" ":line-numbers=".toList := rfl
    rw [toText_from, String.toList_append]
    exact .from name (digits_decimal n) (value_decimal n)

/-- What is written of a numbering is read as it, for neither a number nor a sign follows. -/
theorem scan_numberingText (numbering : LineNumbering) {rest : List Char}
    (head : ∀ c ∈ rest.head?, c = '\x7b' ∨ c = '[') :
    numberingOption.scan (numbering.toText.toList ++ rest) = some (numbering, rest) := by
  have noSign : ¬ BeginsWith (Text.foldCase · = '=') rest := by
    refine not_beginsWith_iff.2 fun c mem sign => ?_
    rcases head c mem with rfl | rfl <;> cases sign
  have noDigit : ¬ BeginsWith (Text.isDecimalDigit · = true) rest := by
    refine not_beginsWith_iff.2 fun c mem digit => ?_
    rcases head c mem with rfl | rfl
    · exact absurd digit (by decide)
    · exact absurd digit (by decide)
  exact (numberingOption_toText numbering).scan noSign noDigit

/-- What is written of a range is a range of an info string. -/
theorem rangeText_toText (range : NumberRange) : RangeText range.toText.toList (some range) := by
  obtain ⟨first, last, ordered⟩ := range
  have between : NumberRange.between first last = ⟨first, last, ordered⟩ := dif_pos ordered
  have left := value_decimal first
  have right := value_decimal last
  by_cases single : first = last
  · subst single
    have whole := RangeText.one (digits_decimal first) left
    rw [Option.map_some, between] at whole
    rwa [NumberRange.toText, if_pos rfl]
  · have whole := RangeText.two (digits_decimal first) left (digits_decimal last) right
    rw [Option.bind_some, Option.map_some, between] at whole
    rw [NumberRange.toText, if_neg single, String.toList_append, String.toList_append,
      List.append_assoc]
    exact whole

/-- What is written of some ranges is an option for them. -/
theorem rangesOption_rangesText {ranges : List NumberRange} (some : ranges ≠ []) :
    RangesOption (rangesText ranges) ranges := by
  have all : ∀ range ∈ ranges.map fun r => (r.toText.toList, Option.some r),
      RangeText range.1 range.2 := by
    intro range mem
    obtain ⟨r, _, rfl⟩ := List.mem_map.1 mem
    exact rangeText_toText r
  have whole := RangesOption.braces (mt List.map_eq_nil_iff.1 some) all
  have values : (ranges.map fun r => (r.toText.toList, Option.some r)).filterMap (·.2) = ranges := by
    rw [List.filterMap_map]
    exact List.filterMap_some
  rw [values, List.map_map] at whole
  rwa [rangesText, if_neg (mt List.isEmpty_iff.1 some)]

/-- What is written of ranges is read as these, or nothing is if there are none. -/
theorem scan_rangesText (ranges : List NumberRange) (group : Option String) :
    ∃ reads, (Pattern.optional rangesOption).scan (rangesText ranges ++ groupText group) =
        some (reads, groupText group) ∧ (reads.getD []).filterMap readRange = ranges := by
  cases ranges with
  | nil =>
    have brace : (word "\x7b").scan (groupText group) = none := by
      refine scan_word_eq_none (l := '\x7b') rfl ?_
      cases group with
      | none => exact id
      | some name => exact not_beginsWith_cons (by decide) _
    have none : rangesOption.scan (groupText group) = Option.none := by
      rw [rangesOption, scan_bind, brace, Option.bind_none]
    exact ⟨Option.none, scan_optional_of_none none, rfl⟩
  | cons range ranges =>
    obtain ⟨reads, scanned, same⟩ :=
      scan_ranges (rangesOption_rangesText (List.cons_ne_nil range ranges)) (groupText group)
    exact ⟨some reads, scan_optional_of_some scanned, same⟩

/-- What is written of a group is read as it, if it has a name that can be read. -/
theorem scan_groupText {group : Option String}
    (readable : ∀ name ∈ group, name ≠ "" ∧ ∀ c ∈ name.toList, Text.isWordCharacter c = true) :
    ∃ read, (Pattern.optional groupOption).scan (groupText group) = some (read, []) ∧
      read.map String.ofList = group := by
  cases group with
  | none => exact ⟨none, rfl, rfl⟩
  | some name =>
    obtain ⟨named, all⟩ := readable name rfl
    have complete := GroupOption.brackets (mt String.toList_eq_nil_iff.1 named) all
    obtain ⟨read, scanned, same⟩ := scan_group complete []
    rw [List.append_nil] at scanned
    exact ⟨some read, scan_optional_of_some scanned,
      congrArg some (same.trans (String.ofList_toList ..))⟩

/-! ## Reading the normal form -/

/-- The whole text of a fence is read, and nothing is left of it. -/
theorem Readable.scan_toText {fence : Fence} (readable : fence.Readable) (config : Config) :
    (reading (defaultNumbering config)).scan fence.toText.toList = some (fence, []) := by
  obtain ⟨ranges, readRanges, sameRanges⟩ := scan_rangesText fence.highlighted fence.group
  obtain ⟨group, readGroup, sameGroup⟩ := scan_groupText readable.group
  have readNumbering := scan_optional_of_some
    (scan_numberingText fence.numbering (head_options fence.highlighted fence.group))
  have colon : ¬ BeginsWith (Text.isLatinLetter · = true) (fence.numbering.toText.toList ++
      (rangesText fence.highlighted ++ groupText fence.group)) := by
    obtain ⟨tail, numbering⟩ := head_numbering fence.numbering
    rw [numbering]
    exact not_beginsWith_cons (by decide) _
  have language := scan_run1_eq_some_iff.2
    ⟨rfl, mt String.toList_eq_nil_iff.1 readable.named, readable.letters, colon⟩
  rw [toList_toText, reading_eq, languageName, scan_bind_of_some language, options,
    scan_bind_of_some readNumbering, scan_bind_of_some readRanges, scan_bind_of_some readGroup,
    ofParts, sameRanges, sameGroup, Option.getD_some, String.ofList_toList]
  rfl

/-- A readable fence is what its normal form says. -/
theorem Readable.ofText?_eq {fence : Fence} (readable : fence.Readable) (config : Config) :
    ofText? config fence.toText = some fence := by
  have found : (reading (defaultNumbering config)).findFrom [] fence.toText.toList =
      some ([], fence) :=
    ((starts_reading config).findFrom_eq_some_iff []).2
      ⟨[], _, [], rfl, rfl, nofun, readable.scan_toText config⟩
  rw [ofText?, find?, found]
  rfl

/-- The fences that can be read again are those that are read of some info string. -/
theorem readable_iff {fence : Fence} :
    fence.Readable ↔ ∃ config info, ofText? config info = some fence := by
  constructor
  · intro readable
    exact ⟨{}, fence.toText, readable.ofText?_eq {}⟩
  · rintro ⟨config, info, read⟩
    exact (spells_of_ofText? read).readable

/-- The normal form of an info string. -/
def normalized? (config : Config) (info : String) : Option String :=
  (ofText? config info).map toText

/-- **Nothing is lost in the normal form, whatever the configuration.**  What was read of an info
string under one configuration is read of its normal form under any other, and the normal form of
the normal form is the normal form. -/
theorem ofText?_toText (config config' : Config) (info : String) :
    (∀ fence, ofText? config info = some fence → ofText? config' fence.toText = some fence) ∧
      ∀ text, normalized? config info = some text → normalized? config' text = some text := by
  have again (fence : Fence) (read : ofText? config info = some fence) :
      ofText? config' fence.toText = some fence :=
    (readable_iff.2 ⟨config, info, read⟩).ofText?_eq config'
  refine ⟨again, fun text normal => ?_⟩
  obtain ⟨fence, read, rfl⟩ := Option.map_eq_some_iff.1 normal
  rw [normalized?, again fence read, Option.map_some]

/-- The default for numbers is written out, a range is turned round, and a number too large for a
range is left out. -/
theorem ofText?_toText_written_out :
    let info := "1Ru\u017ft\x7b9-7,18446744073709551616,3-3\x7d[npm]"
    let normal := "Ru\u017ft:line-numbers=0\x7b7-9,3\x7d[npm]"
    let fence : Fence := ⟨"Ru\u017ft", .from 0, [.between 7 9, .between 3 3], some "npm"⟩
    ofText? { numberLines := true } info = some fence ∧ fence.toText = normal ∧
      ofText? {} fence.toText = some fence ∧ normalized? {} normal = some normal := by
  intro info normal fence
  have read : ofText? { numberLines := true } info = some fence := by decide +kernel
  have text : normalized? { numberLines := true } info = some normal := by decide +kernel
  have kept := ofText?_toText { numberLines := true } {} info
  exact ⟨read, by decide +kernel, kept.1 fence read, kept.2 normal text⟩

end CodeListing.Fence
