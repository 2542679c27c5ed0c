import CodeListing.Proofs.Spans

/-!
# Info strings are recognised by their grammar

`ofText?_recognises` compares what is read of an info string with its grammar, `Fence.Spells`.  It
rests on one property of each option, `Takes`: what is scanned is a complete option, and where a
complete option stands, that one is scanned or a longer one.
-/

namespace CodeListing.Fence

open Pattern

/-! ## Taking an option -/

/-- The pattern scans complete options, none of which is the beginning of a longer one that it could
scan, and `f` is what they say. -/
structure Takes {α β : Type} (Complete : List Char → α → Prop) (p : Pattern β) (f : β → α) :
    Prop where
  sound : ∀ {text b rest}, p.scan text = some (b, rest) →
    ∃ option, text = option ++ rest ∧ Complete option (f b)
  longest : ∀ {option a} rest, Complete option a → ∃ b rest',
    p.scan (option ++ rest) = some (b, rest') ∧
      (f b = a ∧ rest' = rest ∨ rest'.length < rest.length)

section Takes

variable {α β : Type} {Complete : List Char → α → Prop} {p : Pattern β} {f : β → α}

/-- What the grammar takes of a text is what is scanned of it. -/
theorem Takes.scan_of_taken (takes : Takes Complete p f) {text rest : List Char}
    {taken : Option α} (isTaken : Taken Complete text taken rest) :
    ∃ read, (Pattern.optional p).scan text = some (read, rest) ∧ taken = read.map f := by
  cases isTaken with
  | @whole option _ a complete greedy =>
    obtain ⟨b, rest', scanned, found⟩ := takes.longest rest complete
    obtain ⟨option', same, complete'⟩ := takes.sound scanned
    have bound := greedy option' rest' (f b) same.symm complete'
    have lengths := congrArg List.length same
    rw [List.length_append, List.length_append] at lengths
    rcases found with ⟨rfl, rfl⟩ | shorter
    · exact ⟨some b, scan_optional_of_some scanned, rfl⟩
    · omega
  | absent none =>
    cases scanned : p.scan text with
    | none => exact ⟨Option.none, scan_optional_of_none scanned, rfl⟩
    | some read =>
      obtain ⟨option, same, complete⟩ := takes.sound scanned
      exact absurd complete (none option read.2 (f read.1) same)

/-- What is scanned of a text is what the grammar takes of it. -/
theorem Takes.taken_of_scan (takes : Takes Complete p f) {text rest : List Char}
    {read : Option β} (scanned : (Pattern.optional p).scan text = some (read, rest)) :
    Taken Complete text (read.map f) rest := by
  cases found : p.scan text with
  | none =>
    rw [scan_optional_of_none found] at scanned
    obtain ⟨rfl, rfl⟩ := Prod.mk.inj (Option.some.inj scanned)
    refine .absent fun option rest a same complete => ?_
    obtain ⟨b, rest', scanned, _⟩ := takes.longest rest complete
    rw [same, scanned] at found
    cases found
  | some pair =>
    obtain ⟨b, left⟩ := pair
    rw [scan_optional_of_some found] at scanned
    obtain ⟨rfl, rfl⟩ := Prod.mk.inj (Option.some.inj scanned)
    obtain ⟨option, rfl, complete⟩ := takes.sound found
    refine .whole complete fun longer rest' a same complete' => ?_
    obtain ⟨b', left', scanned', other⟩ := takes.longest rest' complete'
    rw [same, found] at scanned'
    obtain ⟨rfl, rfl⟩ := Prod.mk.inj (Option.some.inj scanned')
    have lengths := congrArg List.length same
    rw [List.length_append, List.length_append] at lengths
    rcases other with ⟨_, rfl⟩ | shorter <;> omega

end Takes

/-! ## The numbering option -/

/-- The name of the option is not mistaken for the word in front of it. -/
theorem scan_no {line : List Char} (isLine : InAnyCase "line-numbers" line) (rest : List Char) :
    (word "no-").scan (line ++ rest) = none := by
  match line, isLine with
  | c :: line, isLine =>
    have first : Text.foldCase c = 'l' := (List.cons.inj (isLine.trans rfl)).1
    have other : Text.foldCase c ≠ 'n' := by
      rw [first]
      decide
    exact scan_word_eq_none (l := 'n') rfl other

/-- The parts of a numbering option are scanned one after the other. -/
theorem scan_numbering {colon no line : List Char} {off : Option Unit}
    (isColon : InAnyCase ":" colon)
    (isNo : off = none ∧ no = [] ∨ off = some () ∧ InAnyCase "no-" no)
    (isLine : InAnyCase "line-numbers" line) {text rest : List Char} {first : Option (List Char)}
    (scanned : numberPart.scan text = some (first, rest)) :
    numberingOption.scan (colon ++ (no ++ (line ++ text))) =
      some (numberingOf off first, rest) := by
  have sign : (Pattern.optional (word "no-")).scan (no ++ (line ++ text)) =
      some (off, line ++ text) := by
    rcases isNo with ⟨rfl, rfl⟩ | ⟨rfl, isNo⟩
    · exact scan_optional_of_none (scan_no isLine _)
    · exact scan_optional_of_some (scan_word isNo _)
  rw [numberingOption, scan_bind_of_some (scan_word isColon _), scan_bind_of_some sign,
    scan_bind_of_some (scan_word isLine _)]
  exact scan_bind_of_some scanned

/-- Where a number stands, it is scanned, or a longer one if there are more digits behind it. -/
theorem numberPart_longest {number : Option (List Char)} {part : List Char} (text : List Char)
    (isPart : NumberText number part) : ∃ read rest,
      numberPart.scan (part ++ text) = some (read, rest) ∧
        (read = number ∧ rest = text ∨ rest.length < text.length) := by
  cases isPart with
  | absent =>
    rw [List.nil_append]
    cases scanned : numberPart.scan text with
    | none => exact absurd scanned (always_optional _ text)
    | some read =>
      obtain ⟨number, rest⟩ := read
      obtain ⟨stop, rfl, part, notes, isPart, _⟩ := number_leads.exists_marks scanned
      have all : text = part ++ stop.rest := notes.rest
      refine ⟨number, stop.rest, rfl, ?_⟩
      cases isPart with
      | absent => exact .inl ⟨rfl, all.symm⟩
      | present =>
        right
        rw [all, List.length_append, List.length_cons]
        omega
  | @present digits isDigits =>
    have sign : (word "=").scan ('=' :: (digits ++ text)) = some ((), digits ++ text) :=
      scan_sign rfl rfl _
    have run : (run1 Text.isDecimalDigit).scan (digits ++ text) = some
        (digits ++ text.takeWhile Text.isDecimalDigit, text.dropWhile Text.isDecimalDigit) := by
      rw [scan_run1, List.takeWhile_append_of_pos isDigits.2,
        List.dropWhile_append_of_pos isDigits.2,
        if_neg (List.append_ne_nil_of_left_ne_nil isDigits.1 _)]
    refine ⟨_, _, scan_optional_of_some ((scan_bind_of_some sign).trans run), ?_⟩
    -- Behind the digits there may be more of them, which then belong to the number, too.
    have all := List.takeWhile_append_dropWhile (p := Text.isDecimalDigit) (l := text)
    cases more : text.takeWhile Text.isDecimalDigit with
    | nil =>
      rw [more, List.nil_append] at all
      exact .inl ⟨by rw [List.append_nil], all⟩
    | cons d ds =>
      right
      have lengths := congrArg List.length all
      rw [more, List.length_append, List.length_cons] at lengths
      omega

/-- A name in any case is made of its parts in any case. -/
theorem InAnyCase.split {letters : String} {text : List Char} (named : InAnyCase letters text)
    (front back : String) (same : letters.toList = front.toList ++ back.toList) :
    ∃ a b, text = a ++ b ∧ InAnyCase front a ∧ InAnyCase back b := by
  rw [InAnyCase, same] at named
  exact List.map_eq_append_iff.1 named

theorem InAnyCase.sign {letters : String} {text : List Char} (named : InAnyCase letters text)
    {c : Char} (single : letters.toList = [c]) (sign : c.isLower = false) : text = [c] := by
  rw [InAnyCase, single] at named
  obtain ⟨d, rfl, same⟩ := List.map_eq_singleton_iff.1 named
  rw [Text.eq_of_foldCase same sign]

/-- A numbering option in its parts. -/
theorem NumberingOption.parts {option : List Char} {numbering : LineNumbering}
    (complete : NumberingOption option numbering) :
    ∃ colon no line part off number, option = colon ++ (no ++ (line ++ part)) ∧
      InAnyCase ":" colon ∧ (off = none ∧ no = [] ∨ off = some () ∧ InAnyCase "no-" no) ∧
      InAnyCase "line-numbers" line ∧ NumberText number part ∧
      numberingOf off number = numbering := by
  cases complete with
  | on named =>
    obtain ⟨colon, line, rfl, isColon, isLine⟩ := named.split ":" "line-numbers" rfl
    exact ⟨colon, [], line, [], none, none, by simp, isColon, .inl ⟨rfl, rfl⟩, isLine, .absent, rfl⟩
  | @«from» named digits n start isDigits value =>
    obtain ⟨colon, _, rfl, isColon, isName⟩ := start.split ":" "line-numbers=" rfl
    obtain ⟨line, equals, rfl, isLine, isEquals⟩ := isName.split "line-numbers" "=" rfl
    obtain rfl : equals = ['='] := isEquals.sign rfl rfl
    obtain rfl := value_iff.1 value
    exact ⟨colon, [], line, _, none, some digits, by simp, isColon, .inl ⟨rfl, rfl⟩, isLine,
      .present isDigits, rfl⟩
  | off named =>
    obtain ⟨colon, _, rfl, isColon, isName⟩ := named.split ":" "no-line-numbers" rfl
    obtain ⟨no, line, rfl, isNo, isLine⟩ := isName.split "no-" "line-numbers" rfl
    exact ⟨colon, no, line, [], some (), none, by simp, isColon, .inr ⟨rfl, isNo⟩, isLine, .absent,
      rfl⟩
  | @offFrom named digits start isDigits =>
    obtain ⟨colon, _, rfl, isColon, isName⟩ := start.split ":" "no-line-numbers=" rfl
    obtain ⟨no, _, rfl, isNo, isName⟩ := isName.split "no-" "line-numbers=" rfl
    obtain ⟨line, equals, rfl, isLine, isEquals⟩ := isName.split "line-numbers" "=" rfl
    obtain rfl : equals = ['='] := isEquals.sign rfl rfl
    exact ⟨colon, no, line, _, some (), some digits, by simp, isColon, .inr ⟨rfl, isNo⟩, isLine,
      .present isDigits, rfl⟩

/-- Where neither a sign nor a further digit follows, a number is scanned as it stands. -/
theorem NumberText.scan {number : Option (List Char)} {part rest : List Char}
    (isPart : NumberText number part) (noSign : ¬ BeginsWith (Text.foldCase · = '=') rest)
    (noDigit : ¬ BeginsWith (Text.isDecimalDigit · = true) rest) :
    numberPart.scan (part ++ rest) = some (number, rest) := by
  cases isPart with
  | absent =>
    have sign : (word "=").scan rest = none := scan_word_eq_none rfl noSign
    rw [List.nil_append]
    exact scan_optional_of_none (by rw [scan_bind, sign, Option.bind_none])
  | @present digits isDigits =>
    have sign : (word "=").scan ('=' :: (digits ++ rest)) = some ((), digits ++ rest) :=
      scan_sign rfl rfl _
    have run := scan_run1_eq_some_iff.2 ⟨rfl, isDigits.1, isDigits.2, noDigit⟩
    exact scan_optional_of_some ((scan_bind_of_some sign).trans run)

/-- A numbering option is scanned whole, unless what follows would make it longer. -/
theorem NumberingOption.scan {option rest : List Char} {numbering : LineNumbering}
    (complete : NumberingOption option numbering)
    (noSign : ¬ BeginsWith (Text.foldCase · = '=') rest)
    (noDigit : ¬ BeginsWith (Text.isDecimalDigit · = true) rest) :
    numberingOption.scan (option ++ rest) = some (numbering, rest) := by
  obtain ⟨colon, no, line, part, off, number, rfl, isColon, isNo, isLine, isPart, rfl⟩ :=
    complete.parts
  simp only [List.append_assoc]
  exact scan_numbering isColon isNo isLine (isPart.scan noSign noDigit)

/-- What is scanned is a numbering option, and the longest that stands there. -/
theorem numbering_takes : Takes NumberingOption numberingOption id where
  sound {text numbering rest} scanned := by
    obtain ⟨stop, rfl, option, _, _, notes, complete, _⟩ := numbering_leads.exists_marks scanned
    exact ⟨option, notes.rest, complete⟩
  longest {option numbering} rest complete := by
    obtain ⟨colon, no, line, part, off, number, rfl, isColon, isNo, isLine, isPart, rfl⟩ :=
      complete.parts
    obtain ⟨number', rest', scanned, found⟩ := numberPart_longest rest isPart
    have whole := scan_numbering isColon isNo isLine scanned
    simp only [List.append_assoc]
    refine ⟨_, _, whole, found.imp_left ?_⟩
    rintro ⟨rfl, rfl⟩
    exact ⟨rfl, rfl⟩

/-! ## The option for highlighted lines -/

/-- A range is scanned whole if neither a digit nor a dash follows it. -/
theorem scan_range {text rest : List Char} {range : Option NumberRange}
    (isRange : RangeText text range) (unstuck : ¬ RangeStuck rest) :
    ∃ read, rangeText.scan (text ++ rest) = some (read, rest) ∧ readRange read = range := by
  have noDigit := fun begins => unstuck (.inl begins)
  have noDash := fun begins => unstuck (.inr begins)
  cases isRange with
  | one digits value =>
    obtain rfl := value_iff.1 value
    have first := scan_run1_eq_some_iff.2 ⟨rfl, digits.1, digits.2, noDigit⟩
    have dash : (word "-").scan rest = none := scan_word_eq_none rfl noDash
    have last : (Pattern.optional (word "-" >>= fun _ => run1 Text.isDecimalDigit)).scan rest =
        some (none, rest) := scan_optional_of_none (by rw [scan_bind, dash, Option.bind_none])
    refine ⟨(text, none), ?_, rfl⟩
    rw [rangeText, scan_bind_of_some first, scan_bind_of_some last]
    rfl
  | @two left right m n digits value digits' value' =>
    obtain rfl := value_iff.1 value
    obtain rfl := value_iff.1 value'
    have first : (run1 Text.isDecimalDigit).scan (left ++ '-' :: (right ++ rest)) =
        some (left, '-' :: (right ++ rest)) :=
      scan_run1_eq_some_iff.2 ⟨rfl, digits.1, digits.2, not_beginsWith_cons (by decide) _⟩
    have dash : (word "-").scan ('-' :: (right ++ rest)) = some ((), right ++ rest) :=
      scan_sign rfl rfl _
    have number := scan_run1_eq_some_iff.2 ⟨rfl, digits'.1, digits'.2, noDigit⟩
    have last : (Pattern.optional (word "-" >>= fun _ => run1 Text.isDecimalDigit)).scan
        ('-' :: (right ++ rest)) = some (some right, rest) :=
      scan_optional_of_some ((scan_bind_of_some dash).trans number)
    refine ⟨(left, some right), ?_, readRange_two left right⟩
    rw [List.append_assoc, List.cons_append, rangeText, scan_bind_of_some first,
      scan_bind_of_some last]
    rfl

/-- The ranges behind the first one, up to the end of the text. -/
def restOfRanges (ranges : List (List Char × Option NumberRange)) (rest : List Char) : List Char :=
  ranges.flatMap (fun range => ',' :: range.1) ++ '\x7d' :: rest

theorem restOfRanges_cons (range : List Char × Option NumberRange)
    (ranges : List (List Char × Option NumberRange)) (rest : List Char) :
    restOfRanges (range :: ranges) rest = ',' :: (range.1 ++ restOfRanges ranges rest) := by
  simp [restOfRanges]

theorem length_restOfRanges (ranges : List (List Char × Option NumberRange)) (rest : List Char) :
    ranges.length ≤ (restOfRanges ranges rest).length := by
  induction ranges with
  | nil => exact Nat.zero_le _
  | cons range ranges ih =>
    rw [restOfRanges_cons, List.length_cons, List.length_cons, List.length_append]
    omega

/-- Behind a range stands a comma or the closing brace, and no part of a range. -/
theorem restOfRanges_unstuck (ranges : List (List Char × Option NumberRange)) (rest : List Char) :
    ¬ RangeStuck (restOfRanges ranges rest) := by
  cases ranges with
  | nil => exact not_rangeStuck_cons (by decide) (by decide) _
  | cons range ranges =>
    rw [restOfRanges_cons]
    exact not_rangeStuck_cons (by decide) (by decide) _

/-- The ranges behind the first are scanned one by one, if the budget allows for their number. -/
theorem repeated_ranges {ranges : List (List Char × Option NumberRange)}
    (all : ∀ range ∈ ranges, RangeText range.1 range.2) (rest : List Char) (budget : Nat)
    (done : List (List Char × Option (List Char))) (enough : ranges.length ≤ budget) :
    ∃ reads, repeated (word "," >>= fun _ => rangeText).scan budget done
        (restOfRanges ranges rest) = (done.reverse ++ reads, '\x7d' :: rest) ∧
      reads.map readRange = ranges.map (·.2) := by
  induction ranges generalizing budget done with
  | nil =>
    have comma : (word ",").scan ('\x7d' :: rest) = none :=
      scan_word_eq_none (l := ',') rfl (not_beginsWith_cons (by decide) _)
    have none : (word "," >>= fun _ => rangeText).scan ('\x7d' :: rest) = none := by
      rw [scan_bind, comma, Option.bind_none]
    exact ⟨[], by rw [List.append_nil]; exact repeated_of_none none budget done, rfl⟩
  | cons range ranges ih =>
    obtain ⟨first, others⟩ := List.forall_mem_cons.1 all
    rw [List.length_cons] at enough
    obtain ⟨budget, rfl⟩ : ∃ b, budget = b + 1 := ⟨budget - 1, by omega⟩
    obtain ⟨read, scanned, same⟩ := scan_range first (restOfRanges_unstuck ranges rest)
    have comma : (word ",").scan (',' :: (range.1 ++ restOfRanges ranges rest)) =
        some ((), range.1 ++ restOfRanges ranges rest) := scan_sign rfl rfl _
    have step : (word "," >>= fun _ => rangeText).scan
        (',' :: (range.1 ++ restOfRanges ranges rest)) = some (read, restOfRanges ranges rest) :=
      (scan_bind_of_some comma).trans scanned
    obtain ⟨reads, found, same'⟩ := ih others budget (read :: done) (by omega)
    refine ⟨read :: reads, ?_, by rw [List.map_cons, List.map_cons, same, same']⟩
    rw [restOfRanges_cons, repeated, step]
    refine found.trans ?_
    rw [List.reverse_cons, List.append_assoc, List.singleton_append]

/-- The option for highlighted lines is scanned whole. -/
theorem scan_ranges {option : List Char} {numbers : List NumberRange}
    (complete : RangesOption option numbers) (rest : List Char) :
    ∃ reads, rangesOption.scan (option ++ rest) = some (reads, rest) ∧
      reads.filterMap readRange = numbers := by
  obtain @⟨ranges, some, all⟩ := complete
  obtain ⟨range, ranges, rfl⟩ := List.exists_cons_of_ne_nil some
  obtain ⟨first, others⟩ := List.forall_mem_cons.1 all
  obtain ⟨read, scanned, same⟩ := scan_range first (restOfRanges_unstuck ranges rest)
  obtain ⟨reads, found, same'⟩ := repeated_ranges others rest
    (restOfRanges ranges rest).length [] (length_restOfRanges ranges rest)
  have text : '\x7b' :: [','].intercalate ((range :: ranges).map (·.1)) ++ ['\x7d'] ++ rest =
      '\x7b' :: (range.1 ++ restOfRanges ranges rest) := by
    rw [List.map_cons, Text.intercalate_cons, List.flatMap_map]
    simp [restOfRanges]
  have left : (word "\x7b").scan ('\x7b' :: (range.1 ++ restOfRanges ranges rest)) =
      Option.some ((), range.1 ++ restOfRanges ranges rest) := scan_sign rfl rfl _
  have more : (many (word "," >>= fun _ => rangeText)).scan (restOfRanges ranges rest) =
      Option.some (reads, '\x7d' :: rest) := by
    rw [scan_many, found]
    rfl
  have right : (word "\x7d").scan ('\x7d' :: rest) = Option.some ((), rest) :=
    scan_sign rfl rfl _
  refine ⟨read :: reads, ?_, ?_⟩
  · rw [text, rangesOption, scan_bind_of_some left, scan_bind_of_some scanned,
      scan_bind_of_some more, scan_bind_of_some right]
    rfl
  · have values : (read :: reads).map readRange = (range :: ranges).map (·.2) := by
      rw [List.map_cons, List.map_cons, same, same']
    have readable := congrArg (List.filterMap id) values
    rwa [List.filterMap_map, List.filterMap_map] at readable

/-- What is scanned is an option for highlighted lines, and no other one stands there. -/
theorem ranges_takes : Takes RangesOption rangesOption (List.filterMap readRange) where
  sound {text ranges rest} scanned := by
    obtain ⟨stop, rfl, option, _, notes, complete, _⟩ := ranges_leads.exists_marks scanned
    exact ⟨option, notes.rest, complete⟩
  longest rest complete := by
    obtain ⟨reads, scanned, same⟩ := scan_ranges complete rest
    exact ⟨reads, rest, scanned, .inl ⟨same, rfl⟩⟩

/-! ## The group option -/

/-- A group option is scanned whole, as its name cannot hold the closing bracket. -/
theorem scan_group {option : List Char} {group : String} (complete : GroupOption option group)
    (rest : List Char) :
    ∃ name, groupOption.scan (option ++ rest) = some (name, rest) ∧ String.ofList name = group := by
  obtain @⟨name, some, all⟩ := complete
  have left : (word "[").scan ('[' :: (name ++ ']' :: rest)) =
      Option.some ((), name ++ ']' :: rest) := scan_sign rfl rfl _
  have inside : (run1 Text.isWordCharacter).scan (name ++ ']' :: rest) =
      Option.some (name, ']' :: rest) :=
    scan_run1_eq_some_iff.2 ⟨rfl, some, all, not_beginsWith_cons (by decide +kernel) _⟩
  have right : (word "]").scan (']' :: rest) = Option.some ((), rest) := scan_sign rfl rfl _
  refine ⟨name, ?_, rfl⟩
  rw [List.append_assoc, List.cons_append, List.singleton_append, groupOption,
    scan_bind_of_some left, scan_bind_of_some inside, scan_bind_of_some right]
  rfl

/-- What is scanned is a group option, and no other one stands there. -/
theorem group_takes : Takes GroupOption groupOption String.ofList where
  sound {text name rest} scanned := by
    obtain ⟨stop, rfl, option, notes, complete, _⟩ := group_leads.exists_marks scanned
    exact ⟨option, notes.rest, complete⟩
  longest rest complete := by
    obtain ⟨name, scanned, same⟩ := scan_group complete rest
    exact ⟨name, rest, scanned, .inl ⟨same, rfl⟩⟩

/-! ## The whole info string -/

/-- A reading begins wherever there is a letter, as all that is behind it may be missing. -/
theorem starts_reading (config : Config) :
    Starts Text.isLatinLetter (reading (defaultNumbering config)) := by
  intro text
  rw [← scan_run1_eq_none_iff, reading_eq, scan_bind, languageName]
  cases scanned : (run1 Text.isLatinLetter).scan text with
  | none => exact ⟨fun _ => rfl, fun _ => rfl⟩
  | some read =>
    refine ⟨fun none => ?_, nofun⟩
    exact absurd none (always_options config read.1 read.2)

/-- A fence by its parts, with what the configuration says if there is no numbering option. -/
theorem ofParts_eq (config : Config) (language : List Char) (numbering : Option LineNumbering)
    (ranges : Option (List (List Char × Option (List Char)))) (group : Option (List Char)) :
    ofParts config language numbering ranges group =
      { language := String.ofList language
        numbering := numbering.getD (if config.numberLines then .from 0 else .disabled)
        highlighted := (ranges.map (·.filterMap readRange)).getD []
        group := group.map String.ofList } := by
  cases ranges <;> rfl

/-- What is scanned is what the grammar says. -/
theorem spells_of_scan {config : Config} {before text rest : List Char} {fence : Fence}
    (front : ∀ c ∈ before, ¬ Text.isLatinLetter c = true)
    (scanned : (reading (defaultNumbering config)).scan text = some (fence, rest)) :
    Spells config (before ++ text) fence := by
  rw [reading_eq, scan_bind, Option.bind_eq_some_iff] at scanned
  obtain ⟨⟨language, behind⟩, read, scanned⟩ := scanned
  obtain ⟨rfl, some, letters, stop⟩ := scan_run1_eq_some_iff.1 read
  simp only [options, scan_bind, Option.bind_eq_some_iff] at scanned
  obtain ⟨⟨numbering, behind'⟩, readNumbering, ⟨ranges, behind''⟩, readRanges, ⟨group, rest⟩,
    readGroup, made⟩ := scanned
  obtain ⟨rfl, rfl⟩ := Prod.mk.inj (Option.some.inj made)
  simp only [← isLetter_iff] at front letters stop
  have takes := numbering_takes.taken_of_scan readNumbering
  rw [Option.map_id] at takes
  have whole : Spells config _ _ := .fence front some letters (not_beginsWith_iff.1 stop)
    takes (ranges_takes.taken_of_scan readRanges) (group_takes.taken_of_scan readGroup)
  rw [ofParts_eq, ← List.append_assoc]
  exact whole

/-- What the grammar says is what is scanned, from the first letter on. -/
theorem Spells.scan {config : Config} {info : List Char} {fence : Fence}
    (spells : Spells config info fence) : ∃ before text rest, info = before ++ text ∧
      (∀ c ∈ before, ¬ Text.isLatinLetter c = true) ∧
        (reading (defaultNumbering config)).scan text = some (fence, rest) := by
  cases spells with
  | @fence before language behind behind' behind'' rest numbering ranges group front some letters
      stop takes takes' takes'' =>
    simp only [isLetter_iff] at front letters stop
    have letters' := not_beginsWith_iff.2 stop
    obtain ⟨numbering, readNumbering, rfl⟩ := numbering_takes.scan_of_taken takes
    obtain ⟨ranges, readRanges, rfl⟩ := ranges_takes.scan_of_taken takes'
    obtain ⟨group, readGroup, rfl⟩ := group_takes.scan_of_taken takes''
    refine ⟨before, language ++ behind, rest, List.append_assoc _ _ _, front, ?_⟩
    have read := scan_run1_eq_some_iff.2 ⟨rfl, some, letters, letters'⟩
    rw [reading_eq, languageName, scan_bind_of_some read, options,
      scan_bind_of_some readNumbering, scan_bind_of_some readRanges, scan_bind_of_some readGroup,
      ofParts_eq, Option.map_id]
    rfl

/-- **An info string is recognised by its grammar.**  It says something exactly if it holds a
letter, and what is read of it is what its grammar says.  The same comes out if the string is
searched with a regular expression, which goes back on its choices, and cut at the spans that its
groups have noted; no cut is out of range. -/
theorem ofText?_recognises (config : Config) (info : String) :
    (ofText? config info = none ↔ ∀ c ∈ info.toList, ¬ IsLetter c) ∧
      (∀ fence, ofText? config info = some fence ↔ Spells config info.toList fence) ∧
        ofSpans? config info.toList = some (ofText? config info) := by
  have starts := starts_reading config
  refine ⟨?_, fun fence => ⟨fun read => ?_, fun spells => ?_⟩, ofSpans?_eq config info⟩
  · rw [ofText?, Option.map_eq_none_iff, find?, starts.findFrom_eq_none_iff]
    simp only [isLetter_iff]
  · obtain ⟨⟨front, _⟩, found, rfl⟩ := Option.map_eq_some_iff.1 read
    obtain ⟨before, text, rest, same, _, outside, scanned⟩ :=
      (starts.findFrom_eq_some_iff []).1 found
    rw [same]
    exact spells_of_scan outside scanned
  · obtain ⟨before, text, rest, same, outside, scanned⟩ := spells.scan
    have found : (reading (defaultNumbering config)).findFrom [] info.toList =
        some (before, fence) :=
      (starts.findFrom_eq_some_iff []).2 ⟨before, text, rest, same, rfl, outside, scanned⟩
    rw [ofText?, find?, found]
    rfl

/-- Lines are numbered without an option if the configuration says so, and not if the fence says
otherwise. -/
example :
    ofText? { numberLines := true } "js[a]" = some ⟨"js", .from 0, [], some "a"⟩ ∧
      ofText? { numberLines := true } "js:no-line-numbers[a]" = some ⟨"js", .disabled, [], some "a"⟩ ∧
      ofText? {} "js[a]" = some ⟨"js", .disabled, [], some "a"⟩ := by
  decide +kernel

/-- A missing number leaves its sign in the way of the options behind it. -/
example : ofText? {} "1js:Line-Number\u017f=\x7b1\x7d[a]" = some ⟨"js", .from 0, [], none⟩ := by
  decide +kernel

end CodeListing.Fence
