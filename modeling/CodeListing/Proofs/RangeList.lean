import CodeListing.Fence.Grammar
import CodeListing.Proofs.InfoString

/-!
# Highlighted lines are the lines between the ends of an item

`highlights_listed` follows a list of ranges from its text to the lines that it highlights.  The text
is scanned up to its closing brace whatever stands behind it, item by item, and each item stands for
the numbers between its ends or, if one of them cannot be read, for nothing (`RangeItem.covers_iff`).
A line is asked for by any item, so only the set of the readable items counts.
-/

namespace CodeListing.Fence

open Pattern

/-! ## Items -/

namespace RangeItem

/-- The numbers that the item stands for, if it can be read. -/
def range? (item : RangeItem) : Option NumberRange :=
  (Text.readDecimal item.ends.1).bind fun a =>
    (Text.readDecimal item.ends.2).map fun b => .between a b

/-- An item is a range of the grammar, with the numbers that it stands for. -/
theorem WellFormed.rangeText {item : RangeItem} (wellFormed : item.WellFormed) :
    RangeText item.text item.range? := by
  cases item with
  | one number =>
    have single := RangeText.one wellFormed.1 (value_iff.2 rfl)
    have both : (RangeItem.one number).range? =
        (Text.readDecimal number).map fun n => .between n n := by
      rw [range?, ends]
      cases Text.readDecimal number <;> rfl
    rwa [both]
  | two left right =>
    exact RangeText.two wellFormed.1 (value_iff.2 rfl) wellFormed.2 (value_iff.2 rfl)

/-- An item covers a place exactly if the range that is read of it does. -/
theorem covers_iff {item : RangeItem} {place : Nat} :
    item.Covers place ↔ ∃ range, item.range? = some range ∧ range.contains place = true := by
  simp only [Covers, numeral_iff, range?, Option.bind_eq_some_iff, Option.map_eq_some_iff]
  constructor
  · rintro ⟨a, b, left, right, inside⟩
    exact ⟨_, ⟨a, left, b, right, rfl⟩, (NumberRange.contains_between a b place).2 inside⟩
  · rintro ⟨_, ⟨a, left, b, right, rfl⟩, inside⟩
    exact ⟨a, b, left, right, (NumberRange.contains_between a b place).1 inside⟩

/-- An item can be read exactly if a range is read of it. -/
theorem readable_iff {item : RangeItem} : item.Readable ↔ item.range?.isSome = true := by
  simp only [Readable, numeral_iff, range?, Option.isSome_iff_exists, Option.bind_eq_some_iff,
    Option.map_eq_some_iff]
  constructor
  · rintro ⟨a, b, left, right⟩
    exact ⟨_, a, left, b, right, rfl⟩
  · rintro ⟨_, a, left, b, right, rfl⟩
    exact ⟨a, b, left, right⟩

theorem Covers.readable {item : RangeItem} {place : Nat} (covers : item.Covers place) :
    item.Readable := by
  obtain ⟨a, b, left, right, -⟩ := covers
  exact ⟨a, b, left, right⟩

/-- An item covers the same places with its numbers the other way round. -/
theorem Covers.swap {item : RangeItem} {place : Nat} (covers : item.Covers place) :
    item.swap.Covers place := by
  cases item with
  | one number => exact covers
  | two left right =>
    obtain ⟨a, b, isLeft, isRight, ge, le⟩ := covers
    exact ⟨b, a, isRight, isLeft, Nat.min_comm a.toNat b.toNat ▸ ge, Nat.max_comm a.toNat b.toNat ▸ le⟩

end RangeItem

/-- What readable items cover is covered by any list that has them, whichever way round. -/
theorem ItemsIn.covered {items items' : List RangeItem} (within : ItemsIn items items') {place : Nat}
    (covered : ∃ item ∈ items, item.Covers place) : ∃ item ∈ items', item.Covers place := by
  obtain ⟨item, mem, covers⟩ := covered
  rcases within item mem covers.readable with kept | turned
  · exact ⟨item, kept, covers⟩
  · exact ⟨item.swap, turned, covers.swap⟩

/-- A list of items is an option of the grammar, for the ranges of those that can be read. -/
theorem rangesOption_of_items {items : List RangeItem} (any : items ≠ [])
    (wellFormed : ∀ item ∈ items, item.WellFormed) :
    RangesOption ('\x7b' :: [','].intercalate (items.map (·.text)) ++ ['\x7d'])
      (items.filterMap (·.range?)) := by
  have all : ∀ range ∈ items.map fun item => (item.text, item.range?),
      RangeText range.1 range.2 := by
    intro range mem
    obtain ⟨item, listed, rfl⟩ := List.mem_map.1 mem
    exact (wellFormed item listed).rangeText
  have whole := RangesOption.braces (mt List.map_eq_nil_iff.1 any) all
  rw [List.map_map, List.filterMap_map] at whole
  exact whole

/-! ## Scanning up to the list -/

/-- In front of a brace a numbering option is taken as far as it goes, and it need not be there. -/
theorem scan_numbering_brace {option : List Char}
    (complete : option = [] ∨ ∃ numbering, NumberingOption option numbering) (rest : List Char) :
    ∃ numbering, (Pattern.optional numberingOption).scan (option ++ '\x7b' :: rest) =
      some (numbering, '\x7b' :: rest) := by
  rcases complete with rfl | ⟨numbering, complete⟩
  · have colon : (word ":").scan ('\x7b' :: rest) = none :=
      scan_word_eq_none (l := ':') rfl (not_beginsWith_cons (by decide) rest)
    have missed : numberingOption.scan ('\x7b' :: rest) = none := by
      rw [numberingOption, scan_bind, colon, Option.bind_none]
    exact ⟨none, scan_optional_of_none missed⟩
  · exact ⟨some numbering, scan_optional_of_some (complete.scan
      (not_beginsWith_cons (by decide) rest) (not_beginsWith_cons (by decide) rest))⟩

/-- Behind the language there is no letter that could belong to it. -/
theorem option_head {option : List Char}
    (complete : option = [] ∨ ∃ numbering, NumberingOption option numbering) (rest : List Char) :
    ¬ BeginsWith (Text.isLatinLetter · = true) (option ++ '\x7b' :: rest) := by
  rcases complete with rfl | ⟨numbering, complete⟩
  · exact not_beginsWith_cons (by decide) rest
  · obtain ⟨colon, no, line, part, off, number, rfl, isColon, -⟩ := complete.parts
    obtain rfl : colon = [':'] := isColon.sign rfl rfl
    exact not_beginsWith_cons (by decide) _

/-! ## What is highlighted -/

/-- An info string with a list of ranges says something, and highlights what the items stand for. -/
theorem ListsRanges.exists_fence {items : List RangeItem} {info : String}
    (listed : ListsRanges items info.toList) (config : Config) :
    ∃ fence, ofText? config info = some fence ∧ fence.highlighted = items.filterMap (·.range?) := by
  generalize text : info.toList = chars at listed
  obtain @⟨before, language, option, rest, front, some, letters, complete, any, wellFormed⟩ :=
    listed
  simp only [isLetter_iff] at front letters
  let list := [','].intercalate (items.map (·.text)) ++ '\x7d' :: rest
  obtain ⟨numbering, readNumbering⟩ := scan_numbering_brace complete list
  obtain ⟨reads, scannedRanges, values⟩ :=
    scan_ranges (rangesOption_of_items any wellFormed) rest
  have readRanges : rangesOption.scan ('\x7b' :: list) = Option.some (reads, rest) := by
    simpa [list] using scannedRanges
  cases readGroup : (Pattern.optional groupOption).scan rest with
  | none => exact absurd readGroup (always_optional groupOption rest)
  | some read =>
    obtain ⟨group, behind⟩ := read
    have readLanguage := scan_run1_eq_some_iff.2 ⟨rfl, some, letters, option_head complete list⟩
    have scanned : (reading (defaultNumbering config)).scan
        (language ++ (option ++ '\x7b' :: list)) =
          Option.some (ofParts config language numbering (Option.some reads) group, behind) := by
      rw [reading_eq, languageName, scan_bind_of_some readLanguage, options,
        scan_bind_of_some readNumbering,
        scan_bind_of_some (scan_optional_of_some readRanges), scan_bind_of_some readGroup]
      rfl
    have found := ((starts_reading config).findFrom_eq_some_iff []).2
      ⟨before, _, behind, text, rfl, front, scanned⟩
    refine ⟨ofParts config language numbering (Option.some reads) group, ?_, values⟩
    rw [ofText?, find?, found]
    rfl

/-- A place is highlighted exactly if an item of the list covers it. -/
theorem ListsRanges.highlights {items : List RangeItem} {info : String}
    (listed : ListsRanges items info.toList) (config : Config) :
    ∃ fence, ofText? config info = some fence ∧
      ∀ place, fence.highlights place = true ↔ ∃ item ∈ items, item.Covers place := by
  obtain ⟨fence, read, ranges⟩ := listed.exists_fence config
  refine ⟨fence, read, fun place => ?_⟩
  rw [Fence.highlights, ranges, List.any_eq_true]
  constructor
  · rintro ⟨range, mem, inside⟩
    obtain ⟨item, mem, made⟩ := List.mem_filterMap.1 mem
    exact ⟨item, mem, RangeItem.covers_iff.2 ⟨range, made, inside⟩⟩
  · rintro ⟨item, mem, covers⟩
    obtain ⟨range, made, inside⟩ := RangeItem.covers_iff.1 covers
    exact ⟨range, List.mem_filterMap.2 ⟨item, mem, made⟩, inside⟩

/-- **A line is highlighted exactly if it lies between the ends of an item.**  Which end is the
larger one does not matter, nor do the order of the items, those that come twice, and those whose
numbers cannot be read: a list that has the same readable items highlights the same lines. -/
theorem highlights_listed (config : Config) (info : String) (items : List RangeItem)
    (listed : ListsRanges items info.toList) :
    ∃ fence, ofText? config info = some fence ∧
      (∀ place, fence.highlights place = true ↔ ∃ item ∈ items, item.Covers place) ∧
        ∀ config' info' items', ListsRanges items' info'.toList →
          ItemsIn items items' → ItemsIn items' items →
            ∃ fence', ofText? config' info' = some fence' ∧
              ∀ place, fence'.highlights place = fence.highlights place := by
  obtain ⟨fence, read, covered⟩ := listed.highlights config
  refine ⟨fence, read, covered, fun config' info' items' listed' forth back => ?_⟩
  obtain ⟨fence', read', covered'⟩ := listed'.highlights config'
  refine ⟨fence', read', fun place => Bool.eq_iff_iff.2 ?_⟩
  rw [covered', covered]
  exact ⟨back.covered, forth.covered⟩

/-- An item turned round, one that comes twice, and one with a number that is too large. -/
theorem highlights_listed_turned :
    let items : List RangeItem :=
      [.two ['9'] ['7'], .two "18446744073709551616".toList ['3'], .one ['1']]
    let items' : List RangeItem := [.one ['1'], .two ['7'] ['9'], .one ['1']]
    let info := "1js:Line-Numbers\x7b9-7,18446744073709551616-3,1\x7d[a"
    let info' := "c\x7b1,7-9,1\x7d"
    ListsRanges items info.toList ∧ ListsRanges items' info'.toList ∧
      ItemsIn items items' ∧ ItemsIn items' items ∧
        ∃ fence fence', ofText? {} info = some fence ∧ ofText? {} info' = some fence' ∧
          ∀ place, fence'.highlights place = fence.highlights place := by
  intro items items' info info'
  have wellFormed : ∀ item ∈ items ++ items', item.WellFormed := by
    have digits : ∀ item ∈ items ++ items', ∀ number ∈ [item.ends.1, item.ends.2],
        number ≠ [] ∧ number.all Char.isDigit = true := by decide
    intro item mem
    have first := digits item mem item.ends.1 (by simp)
    have second := digits item mem item.ends.2 (by simp)
    exact ⟨digits_of_isDigit first.1 first.2, digits_of_isDigit second.1 second.2⟩
  have letters {language : List Char} (all : language.all Text.isLatinLetter = true) :
      ∀ c ∈ language, IsLetter c :=
    fun c mem => isLetter_iff.2 (List.all_eq_true.1 all c mem)
  have listed : ListsRanges items info.toList := by
    have text : info.toList = ['1'] ++ ("js".toList ++ (":Line-Numbers".toList ++
        ('\x7b' :: [','].intercalate (items.map (·.text)) ++ '\x7d' :: "[a".toList))) := by
      decide +kernel
    have named : InAnyCase ":line-numbers" ":Line-Numbers".toList := by rw [InAnyCase]; decide
    rw [text]
    have noLetter : ¬ IsLetter '1' := mt isLetter_iff.1 (by decide)
    exact .braces (List.forall_mem_singleton.2 noLetter) (by decide) (letters (by decide))
      (.inr ⟨_, .on named⟩) (by decide)
      fun item mem => wellFormed item (List.mem_append_left _ mem)
  have listed' : ListsRanges items' info'.toList := by
    have text : info'.toList = [] ++ (['c'] ++ ([] ++
        ('\x7b' :: [','].intercalate (items'.map (·.text)) ++ '\x7d' :: []))) := by
      decide +kernel
    rw [text]
    exact .braces nofun (by decide) (letters (by decide)) (.inl rfl) (by decide)
      fun item mem => wellFormed item (List.mem_append_right _ mem)
  have forth : ItemsIn items items' := by
    simp only [ItemsIn, RangeItem.readable_iff]
    decide
  have back : ItemsIn items' items := by
    simp only [ItemsIn, RangeItem.readable_iff]
    decide
  obtain ⟨fence, read, -, same⟩ := highlights_listed {} info items listed
  obtain ⟨fence', read', equal⟩ := same {} info' items' listed' forth back
  exact ⟨listed, listed', forth, back, fence, fence', read, read', equal⟩

end CodeListing.Fence
