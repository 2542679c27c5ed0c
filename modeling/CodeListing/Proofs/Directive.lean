import CodeListing.Line.Directive.Grammar
import CodeListing.Proofs.Spans

/-!
# Which words are directives

`Directive.ofText?_accepts` compares the reading of a directive with its grammar, and with the
reading that cuts the word at a byte offset.

Two kinds of words are told apart.  The words that have nothing behind them are found in a table, and
as no two of them are one word in different cases it does not matter in which order they are tried.
The words that begin with `line-numbers` are cut behind it (`longName?_append`).  A text that is this
name in some case has twelve characters of one byte each, so cutting by bytes and cutting by
characters are the same.
-/

namespace CodeListing

/-! ## Cutting off the beginning of a text -/

namespace Text

/-- What is cut off at the first byte is the beginning of the text. -/
theorem eq_append_of_slice?_zero {stop : Nat} {text front : List Char}
    (cut : slice? text 0 stop = some front) : ∃ behind, text = front ++ behind := by
  obtain ⟨before, behind, rfl, size, -⟩ := slice?_eq_some_iff.1 cut
  obtain rfl := eq_nil_of_byteLength size.symm
  exact ⟨behind, rfl⟩

/-- Only letters have another case in ASCII, so that a sign stands for itself alone. -/
theorem toLower_eq_iff {c sign : Char} (noLetter : sign.toNat < 65) :
    c.toLower = sign ↔ c = sign := by
  have numbers := toNat_toLower c
  rw [← Char.toNat_inj, ← Char.toNat_inj]
  split at numbers <;> omega

end Text

namespace Directive

open Fence (Numeral)

/-! ## The words in the table -/

/-- The table entry for the word, if there is one. -/
def shortName? (word : List Char) : Option (String × Directive) :=
  shortNames.find? fun (name, _) => Text.equalsIgnoringCase word name.toList

theorem shortNames_small :
    ∀ entry ∈ shortNames, entry.1.toList.map Char.toLower = entry.1.toList := by
  decide

theorem shortNames_apart :
    ∀ entry ∈ shortNames, ∀ entry' ∈ shortNames, entry.1.toList = entry'.1.toList →
      entry = entry' := by
  decide

theorem of_shortName? {word : List Char} {entry : String × Directive}
    (found : shortName? word = some entry) : entry ∈ shortNames ∧ InAsciiCase entry.1 word := by
  have mem := List.mem_of_find?_eq_some found
  have equal := List.find?_some found
  exact ⟨mem, (Text.equalsIgnoringCase_iff (shortNames_small entry mem)).1 equal⟩

/-- A short name is found exactly where the word is that name in ASCII case. -/
theorem shortName?_eq_some_iff {word : List Char} {entry : String × Directive} :
    shortName? word = some entry ↔ entry ∈ shortNames ∧ InAsciiCase entry.1 word := by
  refine ⟨of_shortName?, fun ⟨mem, spelled⟩ => ?_⟩
  cases found : shortName? word with
  | none =>
    have missed := List.find?_eq_none.1 found entry mem
    exact absurd ((Text.equalsIgnoringCase_iff (shortNames_small entry mem)).2 spelled) missed
  | some entry' =>
    obtain ⟨mem', spelled'⟩ := of_shortName? found
    rw [shortNames_apart entry' mem' entry mem (spelled'.symm.trans spelled)]

/-! ## What may stand behind the long name -/

/-- Once the digits have been looked at there is no sign that the number could have. -/
theorem ofRest?_sign (number : List Char) :
    ofRest? ('=' :: number) = (Text.readDecimal number).map (.numbered ∘ some) := by
  rw [ofRest?]
  by_cases digits : number.all Char.isDigit = true
  · rw [if_pos digits]
    cases number with
    | nil => rfl
    | cons c number =>
      have isNumber := Fence.digits_of_isDigit (List.cons_ne_nil c number) digits
      rw [Fence.readNumber_of_digits isNumber]
  · rw [if_neg digits, Text.readDecimal, dif_neg fun readable => digits readable.2.1]
    rfl

theorem ofRest?_of_ne {c : Char} (other : c ≠ '=') (number : List Char) :
    ofRest? (c :: number) = none := by
  unfold ofRest?
  split
  · next empty => cases empty
  · next same => exact absurd (List.cons.inj same).1 other
  · rfl

/-- Behind the long name there is nothing, or a sign and a numeral of 64 bits. -/
theorem ofRest?_eq_some_iff {rest : List Char} {directive : Directive} :
    ofRest? rest = some directive ↔ rest = [] ∧ directive = .numbered none ∨
      ∃ digits n, rest = '=' :: digits ∧ Numeral digits n ∧ directive = .numbered (some n) := by
  constructor
  · intro read
    match rest, read with
    | [], read =>
      cases read
      exact .inl ⟨rfl, rfl⟩
    | c :: digits, read =>
      by_cases sign : c = '='
      · subst sign
        rw [ofRest?_sign, Option.map_eq_some_iff] at read
        obtain ⟨n, value, rfl⟩ := read
        exact .inr ⟨digits, n, rfl, Fence.numeral_iff.2 value, rfl⟩
      · rw [ofRest?_of_ne sign] at read
        cases read
  · rintro (⟨rfl, rfl⟩ | ⟨digits, n, rfl, numeral, rfl⟩)
    · rfl
    · rw [ofRest?_sign, Fence.numeral_iff.1 numeral]
      rfl

/-! ## The words that begin with the long name -/

/-- The directive of a word that is or begins with `line-numbers`. -/
def longName? (word : List Char) : Option Directive :=
  if Text.equalsIgnoringCase word "line-numbers".toList then some (.numbered none)
  else (firstNumber? word).map (.numbered ∘ some)

theorem is_longName_iff {text : List Char} :
    Text.equalsIgnoringCase text "line-numbers".toList = true ↔ InAsciiCase "line-numbers" text :=
  Text.equalsIgnoringCase_iff (by decide)

section LongName

variable {name : List Char} (isName : InAsciiCase "line-numbers" name)
include isName

theorem length_of_longName : name.length = 12 := by
  have same := congrArg List.length isName
  rwa [List.length_map] at same

/-- In any ASCII case the long name has twelve bytes, which is where the word is cut. -/
theorem byteLength_of_longName : Text.byteLength name = 12 := by
  have ascii : ∀ c ∈ name, c.toNat ≤ 127 := by
    intro c mem
    have letters : "line-numbers".toList.all (·.toNat ≤ 127) = true := by decide
    have small := of_decide_eq_true
      (List.all_eq_true.1 letters c.toLower (isName ▸ List.mem_map_of_mem mem))
    have lower := Text.toNat_toLower c
    split at lower <;> omega
  rw [Text.byteLength_of_ascii ascii, length_of_longName isName]

/-- Behind a whole long name no cut is refused. -/
theorem cutNumbered?_append (rest : List Char) :
    cutNumbered? (name ++ rest) = some (ofRest? rest) := by
  have front := Text.slice?_append [] name rest
  have behind := Text.slice?_append name rest []
  rw [List.append_nil, ← Text.byteLength_append] at behind
  rw [List.nil_append, Text.byteLength_nil, Nat.zero_add] at front
  rw [byteLength_of_longName isName] at front behind
  rw [cutNumbered?, front, behind]
  exact if_pos (is_longName_iff.2 isName)

/-- A word that begins with the long name is no short name. -/
theorem shortName?_append (rest : List Char) : shortName? (name ++ rest) = none := by
  cases found : shortName? (name ++ rest) with
  | none => rfl
  | some entry =>
    obtain ⟨mem, spelled⟩ := of_shortName? found
    have apart : ∀ entry ∈ shortNames, ¬ "line-numbers".toList <+: entry.1.toList := by decide
    refine absurd ⟨rest.map Char.toLower, ?_⟩ (apart entry mem)
    rw [← isName, ← List.map_append, spelled]

theorem firstNumber?_append (c : Char) (number : List Char) :
    firstNumber? (name ++ c :: number) = if c = '=' then Text.readDecimal number else none := by
  have length : (name ++ [c]).length = 13 := by
    rw [List.length_append, length_of_longName isName]
    rfl
  have option : (name ++ [c]).map Char.toLower = "line-numbers=".toList ↔ c = '=' := by
    have split : "line-numbers=".toList = "line-numbers".toList ++ ['='] := rfl
    rw [List.map_append, isName, split, List.append_right_inj, List.map_singleton,
      List.cons.injEq, Text.toLower_eq_iff (by decide)]
    exact and_iff_left rfl
  have text : name ++ c :: number = (name ++ [c]) ++ number := by simp
  rw [firstNumber?, text]
  change (if Text.equalsIgnoringCase (((name ++ [c]) ++ number).take 13) _ = true then
    Text.readDecimal (((name ++ [c]) ++ number).drop 13) else none) = _
  have small : "line-numbers=".toList.map Char.toLower = "line-numbers=".toList := by decide
  rw [List.take_left' length, List.drop_left' length]
  simp only [Text.equalsIgnoringCase_iff small, option]

/-- Reading by characters takes of the long name and what is behind it the same as `ofRest?`. -/
theorem longName?_append (rest : List Char) : longName? (name ++ rest) = ofRest? rest := by
  rw [longName?]
  cases rest with
  | nil =>
    rw [List.append_nil, if_pos (is_longName_iff.2 isName)]
    rfl
  | cons c number =>
    have longer : ¬ Text.equalsIgnoringCase (name ++ c :: number) "line-numbers".toList = true := by
      intro equal
      have lengths := length_of_longName (is_longName_iff.1 equal)
      rw [List.length_append, length_of_longName isName, List.length_cons] at lengths
      omega
    rw [if_neg longer, firstNumber?_append isName]
    by_cases sign : c = '='
    · subst sign
      rw [if_pos rfl, ofRest?_sign]
    · rw [if_neg sign, ofRest?_of_ne sign]
      rfl

end LongName

/-- Where the word does not begin with the name there is nothing to be cut off behind it. -/
theorem longName?_of_not_begins {word : List Char}
    (not : ∀ name rest, word = name ++ rest → ¬ InAsciiCase "line-numbers" name) :
    longName? word = none ∧ cutNumbered? word = some none := by
  have whole : ¬ Text.equalsIgnoringCase word "line-numbers".toList = true := by
    rw [is_longName_iff]
    exact not word [] (List.append_nil word).symm
  have option : ¬ Text.equalsIgnoringCase (word.take 13) "line-numbers=".toList = true := by
    rw [Text.equalsIgnoringCase_iff (by decide)]
    intro equal
    refine not (word.take 12) (word.drop 12) (List.take_append_drop 12 word).symm ?_
    have front := congrArg (List.take 12) equal
    rwa [← List.map_take, List.take_take] at front
  constructor
  · rw [longName?, if_neg whole, firstNumber?]
    exact congrArg (Option.map _) (if_neg option)
  · rw [cutNumbered?]
    cases cut : Text.slice? word 0 12 with
    | none => rfl
    | some name =>
      obtain ⟨rest, rfl⟩ := Text.eq_append_of_slice?_zero cut
      exact if_neg fun equal => not name rest rfl (is_longName_iff.1 equal)

/-- The cut at the twelfth byte tells the long name as well as comparing characters does. -/
theorem cutNumbered?_eq (word : List Char) : cutNumbered? word = some (longName? word) := by
  by_cases begins : ∃ name rest, word = name ++ rest ∧ InAsciiCase "line-numbers" name
  · obtain ⟨name, rest, rfl, isName⟩ := begins
    rw [cutNumbered?_append isName, longName?_append isName]
  · obtain ⟨none, cut⟩ := longName?_of_not_begins fun name rest text isName =>
      begins ⟨name, rest, text, isName⟩
    rw [none, cut]

/-- What the long name is taken for, by what stands behind it. -/
theorem longName?_eq_some_iff {word : List Char} {directive : Directive} :
    longName? word = some directive ↔
      InAsciiCase "line-numbers" word ∧ directive = .numbered none ∨
        ∃ name digits n, word = name ++ '=' :: digits ∧ InAsciiCase "line-numbers" name ∧
          Numeral digits n ∧ directive = .numbered (some n) := by
  constructor
  · intro read
    by_cases begins : ∃ name rest, word = name ++ rest ∧ InAsciiCase "line-numbers" name
    · obtain ⟨name, rest, rfl, isName⟩ := begins
      rw [longName?_append isName, ofRest?_eq_some_iff] at read
      rcases read with ⟨rfl, rfl⟩ | ⟨digits, n, rfl, numeral, rfl⟩
      · exact .inl ⟨by rwa [List.append_nil], rfl⟩
      · exact .inr ⟨name, digits, n, rfl, isName, numeral, rfl⟩
    · have none := (longName?_of_not_begins fun name rest text isName =>
        begins ⟨name, rest, text, isName⟩).1
      rw [none] at read
      cases read
  · rintro (⟨isName, rfl⟩ | ⟨name, digits, n, rfl, isName, numeral, rfl⟩)
    · have read := longName?_append isName []
      rwa [List.append_nil] at read
    · rw [longName?_append isName, ofRest?_eq_some_iff]
      exact .inr ⟨digits, n, rfl, numeral, rfl⟩

/-! ## Both kinds of words -/

/-- A word is looked up as signs, as a short name, and then as the long one. -/
theorem ofText?_eq (word : String) :
    ofText? word =
      if word = "--" then some .removed
      else if word = "++" then some .added
      else ((shortName? word.toList).map Prod.snd).or (longName? word.toList) := by
  have table : named = shortNames ++ [("line-numbers", .numbered none)] := rfl
  rw [ofText?, table, List.find?_append, ← shortName?]
  cases shortName? word.toList with
  | some entry => rfl
  | none =>
    rw [Option.none_or, List.find?_singleton, longName?]
    by_cases whole : Text.equalsIgnoringCase word.toList "line-numbers".toList = true
    · rw [if_pos whole, if_pos whole]
      rfl
    · rw [if_neg whole, if_neg whole]
      rfl

/-- Both ways to read a directive come to the same, and no cut is out of range. -/
theorem ofSpans?_eq (word : String) : ofSpans? word = some (ofText? word) := by
  rw [ofSpans?, ofText?_eq, ← shortName?, cutNumbered?_eq]
  split
  · rfl
  · split
    · rfl
    · cases shortName? word.toList <;> rfl

/-- The listed names are directives of the grammar. -/
theorem spells_of_shortName {entry : String × Directive} (mem : entry ∈ shortNames)
    {word : List Char} (spelled : InAsciiCase entry.1 word) : Spells word entry.2 := by
  simp only [shortNames, List.mem_cons, List.not_mem_nil, or_false] at mem
  rcases mem with rfl | rfl | rfl | rfl | rfl
  · exact .error spelled
  · exact .warning spelled
  · exact .highlight spelled
  · exact .focus spelled
  · exact .unnumbered spelled

/-- The grammar has the two words of signs, the short names and the long name, and nothing else. -/
theorem spells_iff {word : List Char} {directive : Directive} :
    Spells word directive ↔
      word = "--".toList ∧ directive = .removed ∨ word = "++".toList ∧ directive = .added ∨
        (∃ name, shortName? word = some (name, directive)) ∨
          longName? word = some directive := by
  constructor
  · intro spelled
    have short {name : String} (mem : (name, directive) ∈ shortNames)
        (isName : InAsciiCase name word) : ∃ name, shortName? word = some (name, directive) :=
      ⟨name, shortName?_eq_some_iff.2 ⟨mem, isName⟩⟩
    cases spelled with
    | removed => exact .inl ⟨rfl, rfl⟩
    | added => exact .inr (.inl ⟨rfl, rfl⟩)
    | error isName => exact .inr (.inr (.inl (short (by decide) isName)))
    | warning isName => exact .inr (.inr (.inl (short (by decide) isName)))
    | highlight isName => exact .inr (.inr (.inl (short (by decide) isName)))
    | focus isName => exact .inr (.inr (.inl (short (by decide) isName)))
    | unnumbered isName => exact .inr (.inr (.inl (short (by decide) isName)))
    | numbered isName => exact .inr (.inr (.inr (longName?_eq_some_iff.2 (.inl ⟨isName, rfl⟩))))
    | numberedFrom isName numeral =>
      exact .inr (.inr (.inr (longName?_eq_some_iff.2
        (.inr ⟨_, _, _, rfl, isName, numeral, rfl⟩))))
  · rintro (⟨rfl, rfl⟩ | ⟨rfl, rfl⟩ | ⟨name, found⟩ | found)
    · exact .removed
    · exact .added
    · obtain ⟨mem, isName⟩ := of_shortName? found
      exact spells_of_shortName mem isName
    · rcases longName?_eq_some_iff.1 found with
        ⟨isName, rfl⟩ | ⟨name, digits, n, rfl, isName, numeral, rfl⟩
      · exact .numbered isName
      · exact .numberedFrom isName numeral

/-- The names do not get in each other's way, so the order of looking them up does not matter. -/
theorem shortName?_of_longName? {word : List Char} {directive : Directive}
    (found : longName? word = some directive) : shortName? word = none := by
  rcases longName?_eq_some_iff.1 found with ⟨isName, -⟩ | ⟨name, digits, n, rfl, isName, -⟩
  · rw [← List.append_nil word, shortName?_append isName]
  · exact shortName?_append isName _

theorem name?_signs : ∀ signs ∈ ["--".toList, "++".toList],
    shortName? signs = none ∧ longName? signs = none := by
  decide

/-- A word is read as a directive exactly if the grammar says that it is this one. -/
theorem ofText?_eq_some_iff {word : String} {directive : Directive} :
    ofText? word = some directive ↔ Spells word.toList directive := by
  rw [ofText?_eq, spells_iff, String.toList_inj, String.toList_inj]
  by_cases minus : word = "--"
  · obtain ⟨noShort, noLong⟩ := name?_signs "--".toList (by simp)
    rw [if_pos minus, minus, noShort, noLong]
    simp [eq_comm]
  · rw [if_neg minus]
    by_cases plus : word = "++"
    · obtain ⟨noShort, noLong⟩ := name?_signs "++".toList (by simp)
      rw [if_pos plus, plus, noShort, noLong]
      simp [eq_comm]
    · rw [if_neg plus, Option.or_eq_some_iff]
      constructor
      · rintro (short | ⟨-, long⟩)
        · obtain ⟨⟨name, _⟩, found, rfl⟩ := Option.map_eq_some_iff.1 short
          exact .inr (.inr (.inl ⟨name, found⟩))
        · exact .inr (.inr (.inr long))
      · rintro (⟨same, -⟩ | ⟨same, -⟩ | ⟨name, found⟩ | long)
        · exact absurd same minus
        · exact absurd same plus
        · exact .inl (congrArg (Option.map Prod.snd) found)
        · exact .inr ⟨by rw [shortName?_of_longName? long]; rfl, long⟩

/-- **A word is a directive exactly if its grammar says so.**  What is read of a word is the
directive that it spells, and every word that spells one is read.  The same comes out if what stands
behind the long name is cut off at its byte, which never fails. -/
theorem ofText?_accepts (word : String) :
    (∀ directive, ofText? word = some directive ↔ Spells word.toList directive) ∧
      ofSpans? word = some (ofText? word) :=
  ⟨fun _ => ofText?_eq_some_iff, ofSpans?_eq word⟩

/-- The twelfth byte of the one is the first of a character of two, and the other has a sign. -/
example : ofText? "line-number\u017f" = none ∧ ofText? "Line-Numbers=007" = some (.numbered (some 7)) ∧
    ofText? "line-numbers=+3" = none := by
  decide +kernel

end Directive

end CodeListing
