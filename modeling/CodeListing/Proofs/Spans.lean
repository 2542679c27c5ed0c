import CodeListing.Fence.Grammar
import CodeListing.Fence.Spans
import CodeListing.Proofs.Regex
import CodeListing.Proofs.Separators
import CodeListing.Proofs.Utf8

/-!
# Spans cut out what the pattern reads

`ofSpans?_eq` compares the two ways of reading an info string: cutting it at the spans of the
leftmost reading by a regular expression never fails, and makes the fence that is read without
going back.  Each option comes with what it notes (`NumberingNotes`, `RangesNotes`, `GroupNotes`)
and with the expression that is led by it.
-/

namespace CodeListing.Fence

open Regex
open Pattern (BeginsWith)

theorem isLetter_iff {c : Char} : IsLetter c ↔ Text.isLatinLetter c = true :=
  Text.isLatinLetter_iff.symm

/-! ## Numbers -/

theorem numeral_iff {text : List Char} {n : UInt64} :
    Numeral text n ↔ Text.readDecimal text = some n := by
  rw [Text.readDecimal_eq_some_iff, List.all_eq_true]
  rfl

/-- The value of a run of digits is what the reader of decimal numbers finds, also if it finds none.
-/
theorem value_iff {text : List Char} {n : Option UInt64} :
    Value text n ↔ n = Text.readDecimal text := by
  constructor
  · intro value
    exact Option.ext fun m => (value m).trans numeral_iff
  · rintro rfl
    exact fun m => numeral_iff.symm

theorem digits_of_isDigit {text : List Char} (some : text ≠ [])
    (digits : text.all Char.isDigit = true) : Digits text := by
  rw [List.all_eq_true] at digits
  exact ⟨some, fun c mem => Text.isDecimalDigit_of_isDigit (digits c mem)⟩

/-- On digits alone the sign does not matter. -/
theorem readNumber_of_digits {text : List Char} (digits : Digits text) :
    readNumber text = Text.readDecimal text := by
  unfold readNumber
  split
  · next cs =>
    have plus : Text.isDecimalDigit '+' = false := by decide
    exact absurd (digits.2 '+' List.mem_cons_self) (by rw [plus]; exact Bool.false_ne_true)
  · rfl

/-! ## Cutting out what was noted -/

/-- The text of a group. -/
def cut? (place : Place) (number : Nat) : Option (Option (List Char)) :=
  groupText? place.text place number

/-- Reading on without noting a group leaves its text. -/
theorem cut?_congr {cs : List Char} {start stop : Place} {number : Nat}
    (moves : Moves cs start stop) (kept : stop.groups number = start.groups number) :
    cut? stop number = cut? start number := by
  rw [cut?, cut?, groupText?, groupText?, moves.text, kept]

/-- A group that is closed where the reading stands is cut out as what was read since it was opened.
-/
theorem cut?_close {cs : List Char} {start inner : Place} (moves : Moves cs start inner)
    (number : Nat) : cut? (inner.close number start) number = some (some cs) := by
  have text : inner.text = start.before ++ (cs ++ inner.rest) := by
    rw [Place.text, moves.before, List.append_assoc]
  have stop : inner.offset = Text.byteLength start.before + Text.byteLength cs := by
    rw [Place.offset, moves.before, Text.byteLength_append]
  have noted : (inner.close number start).groups number = some (start.offset, inner.offset) :=
    if_pos rfl
  rw [cut?, groupText?, noted]
  change (Text.slice? inner.text start.offset inner.offset).map some = _
  rw [text, stop, Place.offset, Text.slice?_append, Option.map_some]

/-- A group with a text has a span, and the span is on boundaries of characters. -/
theorem exists_of_cut? {place : Place} {number : Nat} {text : List Char}
    (cut : cut? place number = some (some text)) : ∃ first last,
      place.groups number = some (first, last) ∧ Text.slice? place.text first last = some text := by
  rw [cut?, groupText?] at cut
  split at cut
  · cases cut
  · next first last noted =>
    obtain ⟨_, sliced, same⟩ := Option.map_eq_some_iff.1 cut
    obtain rfl := Option.some.inj same
    exact ⟨first, last, noted, sliced⟩

/-- From `start` on, `option` was read, and nothing was noted but for the groups `numbers`. -/
structure Notes (option : List Char) (numbers : List Nat) (start stop : Place) : Prop
    extends Moves option start stop where
  kept : ∀ n, n ∉ numbers → stop.groups n = start.groups n

theorem Notes.of_passes {cs : List Char} {start stop : Place} (passes : Passes cs start stop) :
    Notes cs [] start stop :=
  ⟨passes.toMoves, fun n _ => congrFun passes.groups n⟩

theorem Notes.append {a b : List Char} {numbers numbers' : List Nat} {start middle stop : Place}
    (first : Notes a numbers start middle) (second : Notes b numbers' middle stop) :
    Notes (a ++ b) (numbers ++ numbers') start stop := by
  refine ⟨first.toMoves.append second.toMoves, fun n other => ?_⟩
  rw [List.mem_append, not_or] at other
  exact (second.kept n other.2).trans (first.kept n other.1)

theorem Notes.close {cs : List Char} {numbers : List Nat} {start inner : Place}
    (notes : Notes cs numbers start inner) (number : Nat) :
    Notes cs (number :: numbers) start (inner.close number start) := by
  refine ⟨⟨notes.rest, notes.before⟩, fun n other => ?_⟩
  rw [List.mem_cons, not_or] at other
  exact (if_neg other.1).trans (notes.kept n other.2)

theorem Notes.cut? {cs : List Char} {numbers : List Nat} {start stop : Place}
    (notes : Notes cs numbers start stop) {n : Nat} (other : n ∉ numbers) :
    cut? stop n = cut? start n :=
  cut?_congr notes.toMoves (notes.kept n other)

/-! ## The language -/

/-- The expression for the language is led by the reading of the language, whose name is the first
group. -/
theorem language_leads : Leads (BeginsWith (Text.isLatinLetter · = true))
    (capture 1 (plus (one Text.isLatinLetter))) languageName fun language start stop =>
      Notes language [1] start stop ∧ cut? stop 1 = some (some language) := by
  refine ((Leads.run1 _).capture 1).weaken (fun _ => id) ?_
  rintro language start _ ⟨inner, ⟨_, _, passes⟩, rfl⟩
  exact ⟨(Notes.of_passes passes).close 1, cut?_close passes.toMoves 1⟩

/-! ## The numbering option -/

/-- Words that differ in one of their first three letters are told apart by three bytes. -/
theorem slice?_sign {cs : List Char} {a b c : Char} {letters : List Char}
    (folded : cs.map Text.foldCase = a :: b :: c :: letters)
    (plain : ∀ l ∈ [a, b, c], l.toNat < 128 ∧ l ≠ 's' ∧ l ≠ 'k') (rest : List Char) :
    ∃ sign, Text.slice? (cs ++ rest) 0 3 = some sign ∧ sign.map Char.toLower = [a, b, c] := by
  match cs, folded with
  | x :: y :: z :: cs, folded =>
    simp only [List.map_cons, List.cons.injEq] at folded
    obtain ⟨isA, isB, isC, -⟩ := folded
    simp only [List.forall_mem_cons] at plain
    obtain ⟨lowerA, sizeA⟩ := Text.toLower_of_foldCase isA plain.1.1 plain.1.2
    obtain ⟨lowerB, sizeB⟩ := Text.toLower_of_foldCase isB plain.2.1.1 plain.2.1.2
    obtain ⟨lowerC, sizeC⟩ := Text.toLower_of_foldCase isC plain.2.2.1.1 plain.2.2.1.2
    have size : Text.byteLength [x, y, z] = 3 := by simp [sizeA, sizeB, sizeC]
    have cut := Text.slice?_append [] [x, y, z] (cs ++ rest)
    rw [size] at cut
    exact ⟨[x, y, z], cut, by simp [lowerA, lowerB, lowerC]⟩

/-- The option is off if it begins with `no-`, whatever stands behind. -/
theorem cutNumbering?_off {config : Config} {cs : List Char} (off : InAnyCase "no-" cs)
    (rest : List Char) (number : Option (List Char)) :
    cutNumbering? config (some (cs ++ rest)) number = some .disabled := by
  have folded : cs.map Text.foldCase = ['n', 'o', '-'] := off
  obtain ⟨sign, cut, lower⟩ := slice?_sign folded (by simp) rest
  have equal : Text.equalsIgnoringCase sign "no-".toList = true :=
    beq_iff_eq.2 (lower.trans (by decide))
  rw [cutNumbering?, cut]
  change some (if Text.equalsIgnoringCase sign "no-".toList = true then _ else _) = _
  rw [if_pos equal]

/-- The option is on if it begins with `line-numbers`, which no three bytes confuse with `no-`. -/
theorem cutNumbering?_on {config : Config} {cs : List Char} (on : InAnyCase "line-numbers" cs)
    (rest : List Char) (number : Option (List Char)) :
    cutNumbering? config (some (cs ++ rest)) number =
      some (.from ((number.bind readNumber).getD 0)) := by
  have folded : cs.map Text.foldCase = 'l' :: 'i' :: 'n' :: "e-numbers".toList := on
  obtain ⟨sign, cut, lower⟩ := slice?_sign folded (by simp) rest
  have other : ¬ Text.equalsIgnoringCase sign "no-".toList = true := by
    rw [Text.equalsIgnoringCase, lower]
    decide
  rw [cutNumbering?, cut]
  change some (if Text.equalsIgnoringCase sign "no-".toList = true then _ else _) = _
  rw [if_neg other]

/-- The number of the numbering option, if there is one. -/
def numberPart : Pattern (Option (List Char)) :=
  .optional (.word "=" >>= fun _ => .run1 Text.isDecimalDigit)

/-- What the numbering option says by its two parts. -/
def numberingOf (off : Option Unit) (number : Option (List Char)) : LineNumbering :=
  match off with
  | some () => .disabled
  | none => .from ((number.bind Text.readDecimal).getD 0)

/-- What may stand behind the name of the numbering option. -/
inductive NumberText : Option (List Char) → List Char → Prop
  | absent : NumberText none []
  | present {digits : List Char} : Digits digits → NumberText (some digits) ('=' :: digits)

/-- The words of the option that is off, by the grammar and by its first three bytes. -/
theorem numbering_off {no line tail : List Char} {number : Option (List Char)}
    (isNo : InAnyCase "no-" no) (isLine : InAnyCase "line-numbers" line)
    (counted : NumberText number tail) :
    NumberingOption (':' :: (no ++ (line ++ tail))) .disabled ∧
      ∀ config, cutNumbering? config (some (no ++ (line ++ tail))) number = some .disabled := by
  refine ⟨?_, fun _ => cutNumbering?_off isNo _ _⟩
  cases counted with
  | absent =>
    rw [List.append_nil]
    refine .off ?_
    rw [InAnyCase, List.map_cons, List.map_append, isNo, isLine]
    rfl
  | @present digits isDigits =>
    have named : InAnyCase ":no-line-numbers=" (':' :: (no ++ (line ++ ['=']))) := by
      rw [InAnyCase, List.map_cons, List.map_append, List.map_append, isNo, isLine]
      rfl
    have whole := NumberingOption.offFrom named isDigits
    simpa only [List.cons_append, List.append_assoc, List.nil_append] using whole

/-- The words of the option that is on, by the grammar and by its first three bytes. -/
theorem numbering_on {line tail : List Char} {number : Option (List Char)}
    (isLine : InAnyCase "line-numbers" line) (counted : NumberText number tail) :
    NumberingOption (':' :: (line ++ tail)) (.from ((number.bind Text.readDecimal).getD 0)) ∧
      ∀ config, cutNumbering? config (some (line ++ tail)) number =
        some (.from ((number.bind Text.readDecimal).getD 0)) := by
  simp only [cutNumbering?_on isLine]
  cases counted with
  | absent =>
    refine ⟨?_, fun _ => rfl⟩
    rw [List.append_nil]
    refine .on ?_
    rw [InAnyCase, List.map_cons, isLine]
    rfl
  | @present digits isDigits =>
    simp only [Option.bind_some, readNumber_of_digits isDigits]
    have named : InAnyCase ":line-numbers=" (':' :: (line ++ ['='])) := by
      rw [InAnyCase, List.map_cons, List.map_append, isLine]
      rfl
    have whole := NumberingOption.from named isDigits (value_iff.2 rfl)
    refine ⟨?_, fun _ => trivial⟩
    simpa only [List.cons_append, List.append_assoc, List.nil_append] using whole

/-- What is noted behind the name of the numbering option. -/
def NumberNotes (number : Option (List Char)) (start stop : Place) : Prop :=
  ∃ text, Notes text [3] start stop ∧ NumberText number text ∧
    (start.groups 3 = none → cut? stop 3 = some number)

/-- The expression for the number is led by its reading, and the number is the third group. -/
theorem number_leads : Leads (fun text => BeginsWith (Text.isDecimalDigit · = true) text ∨
    BeginsWith (Text.foldCase · = '=') text)
      (optional (seq (word "=") (capture 3 digitsRegex))) numberPart NumberNotes := by
  have digits := (Leads.run1 Text.isDecimalDigit).capture 3
  have number := (Leads.sign "=" '=' rfl rfl).seq_free fun _ => digits
  refine (number.optional ((Opens.word "=" '=' rfl).seq _)).weaken (fun _ => id) ?_
  rintro number start stop (absent | ⟨⟨⟩, middle, sign, inner, ⟨some, all, passes⟩, rfl⟩)
  · refine ⟨[], ⟨.nil _, fun _ _ => rfl⟩, .absent, fun empty => ?_⟩
    rw [cut?, groupText?, empty]
  · have noted := (Notes.of_passes sign).append ((Notes.of_passes passes).close 3)
    exact ⟨_, noted, .present ⟨some, all⟩, fun _ => cut?_close passes.toMoves 3⟩

/-- What is noted by the numbering option: itself without its colon, and the number. -/
def NumberingNotes (numbering : LineNumbering) (start stop : Place) : Prop :=
  ∃ text option number, Notes text [2, 3] start stop ∧ NumberingOption text numbering ∧
    cut? stop 2 = some (some option) ∧ (start.groups 3 = none → cut? stop 3 = some number) ∧
    ∀ config, cutNumbering? config (some option) number = some numbering

/-- The expression for the numbering is led by its reading.  What may be `no-` begins with another
letter than the name that follows, so neither of the two readings goes back. -/
theorem numbering_leads :
    Leads (fun _ => True) numberingRegex numberingOption NumberingNotes := by
  have no := (Leads.word "no-").optional (Opens.word "no-" 'n' rfl)
  have line := fun off : Option Unit => (Leads.word "line-numbers").seq_free fun _ =>
    number_leads.map (numberingOf off)
  have apart : ∀ text, False ∨ BeginsWith (Text.foldCase · = 'n') text →
      ¬ BeginsWith (Text.foldCase · = 'l') text := by
    rintro text (⟨⟨⟩⟩ | begins)
    refine begins.apart fun c n l => ?_
    cases n.symm.trans l
  have option := (no.seq_opens line ((Opens.word "line-numbers" 'l' rfl).seq _) apart).capture 2
  refine ((Leads.sign ":" ':' rfl rfl).seq_free fun _ => option).weaken (fun _ _ => trivial) ?_
  rintro numbering start stop ⟨⟨⟩, behind, colon, inner,
    ⟨off, named, no, ⟨⟩, counted, ⟨line, isLine, passes⟩, number, rfl, tail, notes, isTail, cut⟩,
    rfl⟩
  have unset (passed : named.groups = behind.groups) (empty : start.groups 3 = none) :
      counted.groups 3 = none := by
    rw [passes.groups, passed, colon.groups, empty]
  cases no with
  | absent =>
    obtain ⟨said, read⟩ := numbering_on isLine isTail
    have noted := (Notes.of_passes passes).append notes
    exact ⟨_, _, _, (Notes.of_passes colon).append (noted.close 2), said,
      cut?_close noted.toMoves 2, fun empty => cut (unset rfl empty), read⟩
  | present marks =>
    obtain ⟨no, isNo, passesNo⟩ := marks
    obtain ⟨said, read⟩ := numbering_off isNo isLine isTail
    have noted := (Notes.of_passes passesNo).append ((Notes.of_passes passes).append notes)
    exact ⟨_, _, _, (Notes.of_passes colon).append (noted.close 2), said,
      cut?_close noted.toMoves 2, fun empty => cut (unset passesNo.groups empty), read⟩

/-! ## The option for highlighted lines -/

/-- The text of a range that was read as one number or two. -/
def rangeString : List Char × Option (List Char) → List Char
  | (first, none) => first
  | (first, some last) => first ++ '-' :: last

/-- The range was read from digits. -/
def RangeDigits (range : List Char × Option (List Char)) : Prop :=
  Digits range.1 ∧ ∀ last ∈ range.2, Digits last

theorem Digits.not_mem {text : List Char} (digits : Digits text) {c : Char}
    (other : Text.isDecimalDigit c = false) : c ∉ text := by
  intro mem
  rw [digits.2 c mem] at other
  cases other

theorem readRange_two (first last : List Char) :
    readRange (first, some last) = (Text.readDecimal first).bind fun m =>
      (Text.readDecimal last).map fun n => .between m n := by
  rw [readRange]
  cases Text.readDecimal first <;> cases Text.readDecimal last <;> rfl

theorem RangeDigits.rangeText {range : List Char × Option (List Char)}
    (digits : RangeDigits range) : RangeText (rangeString range) (readRange range) := by
  match range, digits with
  | (first, none), digits => exact .one digits.1 (value_iff.2 rfl)
  | (first, some last), digits =>
    rw [readRange_two]
    exact .two digits.1 (value_iff.2 rfl) (digits.2 last rfl) (value_iff.2 rfl)

/-- Cutting a range around its first dash never fails, and gives the numbers that were read. -/
theorem RangeDigits.cutRange? {range : List Char × Option (List Char)}
    (digits : RangeDigits range) : cutRange? (rangeString range) = some (readRange range) := by
  match range, digits with
  | (first, none), digits =>
    have noDash := digits.1.not_mem (c := '-') (by decide)
    rw [rangeString, Fence.cutRange?, if_neg noDash, readNumber_of_digits digits.1]
    rfl
  | (first, some last), digits =>
    have noDash (c : Char) (mem : c ∈ first) : (c != '-') = true :=
      bne_iff_ne.2 fun same => digits.1.not_mem (by decide) (same ▸ mem)
    have before : (first ++ '-' :: last).takeWhile (· != '-') = first :=
      (Pattern.run_append noDash (by simp)).1
    have left : Text.slice? (first ++ '-' :: last) 0 (Text.byteLength first) = some first := by
      have cut := Text.slice?_append [] first ('-' :: last)
      rwa [List.nil_append, Text.byteLength_nil, Nat.zero_add] at cut
    have right : Text.slice? (first ++ '-' :: last) (Text.byteLength first + 1)
        (Text.byteLength (first ++ '-' :: last)) = some last := by
      have cut := Text.slice?_append (first ++ ['-']) last []
      rw [List.append_nil, List.append_assoc, ← Text.byteLength_append, List.append_assoc,
        List.singleton_append, Text.byteLength_append] at cut
      exact cut
    rw [rangeString, Fence.cutRange?, if_pos (by simp), before, readRange_two]
    simp only [left, right, Option.bind_eq_bind, Option.bind_some, readNumber_of_digits digits.1,
      readNumber_of_digits (digits.2 last rfl)]
    cases Text.readDecimal first <;> rfl

/-- No comma stands in a range, so that cutting at the commas gives the ranges back. -/
theorem RangeDigits.not_mem {range : List Char × Option (List Char)} (digits : RangeDigits range) :
    ',' ∉ rangeString range := by
  match range, digits with
  | (first, none), digits => exact digits.1.not_mem (by decide)
  | (first, some last), digits =>
    have left := digits.1.not_mem (c := ',') (by decide)
    have right := (digits.2 last rfl).not_mem (c := ',') (by decide)
    simp [rangeString, left, right]

/-- Where a range is cut short. -/
def RangeStuck (text : List Char) : Prop :=
  BeginsWith (Text.isDecimalDigit · = true) text ∨ BeginsWith (Text.foldCase · = '-') text

theorem not_rangeStuck_cons {c : Char} (noDigit : Text.isDecimalDigit c = false)
    (noDash : Text.foldCase c ≠ '-') (text : List Char) : ¬ RangeStuck (c :: text) := by
  rintro (digit | dash)
  · cases noDigit.symm.trans digit
  · exact noDash dash

/-- What is read of a range. -/
def RangeNotes (range : List Char × Option (List Char)) (start stop : Place) : Prop :=
  RangeDigits range ∧ Passes (rangeString range) start stop

/-- The expression for a range is led by its reading.  Every shorter match is stuck in front of a
digit or a dash. -/
theorem range_leads : Leads RangeStuck rangeRegex rangeText RangeNotes := by
  have digits : Leads _ digitsRegex _ _ := Leads.run1 Text.isDecimalDigit
  have opens := (Opens.word "-" '-' rfl).seq digitsRegex
  have last := ((Leads.sign "-" '-' rfl rfl).seq_free fun _ => digits).optional opens
  have pair := fun first : List Char => last.map fun last => (first, last)
  have always := fun first : List Char =>
    (Pattern.always_optional (.word "-" >>= fun _ => .run1 Text.isDecimalDigit)).bind fun last =>
      Pattern.always_pure (first, last)
  refine (digits.seq_always pair always ?_).weaken (fun _ => id) ?_
  · intro place begins stop mem
    have closed := opens place (begins.apart fun c digit dash => ?_)
    · rw [paths_optional_of_nil closed] at mem
      obtain rfl := List.mem_singleton.1 mem
      exact .inl begins
    · obtain rfl := Text.eq_of_foldCase dash rfl
      exact absurd digit (by decide)
  · rintro range start stop ⟨first, middle, ⟨some, all, passes⟩, last, rfl, rest⟩
    cases rest with
    | absent => exact ⟨⟨⟨some, all⟩, nofun⟩, passes⟩
    | present marks =>
      obtain ⟨⟨⟩, behind, dash, some', all', passes'⟩ := marks
      refine ⟨⟨⟨some, all⟩, fun _ same => ?_⟩, passes.append (dash.append passes')⟩
      obtain rfl := Option.some.inj same
      exact ⟨some', all'⟩

/-- What is noted by the option for highlighted lines: its ranges. -/
def RangesNotes (ranges : List (List Char × Option (List Char))) (start stop : Place) : Prop :=
  ∃ text inner, Notes text [4] start stop ∧ RangesOption text (ranges.filterMap readRange) ∧
    cut? stop 4 = some (some inner) ∧
    (inner.splitOn ',').mapM cutRange? = some (ranges.map readRange)

/-- A sign that is neither a digit nor a dash cannot follow where a range is cut short. -/
theorem range_apart (l : Char) (sign : l.isLower = false) (noDigit : Text.isDecimalDigit l = false)
    (noDash : l ≠ '-') (text : List Char) (stuck : RangeStuck text) :
    ¬ BeginsWith (Text.foldCase · = l) text := by
  rcases stuck with begins | begins
  · refine begins.apart fun c digit same => ?_
    obtain rfl := Text.eq_of_foldCase same sign
    rw [noDigit] at digit
    cases digit
  · exact begins.apart fun c dash same => noDash (same.symm.trans dash)

/-- No range of the list fails to be cut. -/
theorem mapM_cutRange? {ranges : List (List Char × Option (List Char))}
    (digits : ∀ range ∈ ranges, RangeDigits range) :
    (ranges.map rangeString).mapM cutRange? = some (ranges.map readRange) := by
  induction ranges with
  | nil => rfl
  | cons range ranges ih =>
    obtain ⟨first, others⟩ := List.forall_mem_cons.1 digits
    rw [List.map_cons, List.mapM_cons, first.cutRange?, ih others]
    rfl

/-- Ranges of digits, between commas and braces, are the option of the grammar. -/
theorem rangesOption_of_digits {ranges : List (List Char × Option (List Char))}
    (some : ranges ≠ []) (digits : ∀ range ∈ ranges, RangeDigits range) :
    RangesOption ('\x7b' :: [','].intercalate (ranges.map rangeString) ++ ['\x7d'])
      (ranges.filterMap readRange) := by
  have all : ∀ range ∈ ranges.map fun range => (rangeString range, readRange range),
      RangeText range.1 range.2 := by
    intro range mem
    obtain ⟨read, memRead, rfl⟩ := List.mem_map.1 mem
    exact (digits read memRead).rangeText
  have whole := RangesOption.braces (mt List.map_eq_nil_iff.1 some) all
  rwa [List.map_map, List.filterMap_map] at whole

/-- A comma and a range, as every range but the first is read. -/
theorem nextRange_leads : Leads RangeStuck (seq (word ",") rangeRegex)
    (.word "," >>= fun _ => rangeText) fun range start stop =>
      RangeDigits range ∧ Passes (',' :: rangeString range) start stop := by
  refine ((Leads.sign "," ',' rfl rfl).seq_free fun _ => range_leads).weaken (fun _ => id) ?_
  rintro range start stop ⟨⟨⟩, middle, comma, digits, passes⟩
  exact ⟨digits, comma.append passes⟩

/-- Every further range makes the text behind it shorter, so that reading them ends. -/
theorem length_of_nextRange {text rest : List Char} {range : List Char × Option (List Char)}
    (scanned : (Pattern.word "," >>= fun _ => rangeText).scan text = some (range, rest)) :
    rest.length < text.length := by
  obtain ⟨stop, rfl, _, passes⟩ := nextRange_leads.exists_marks scanned
  have all : text = ',' :: (rangeString range ++ stop.rest) := passes.rest
  rw [all, List.length_cons, List.length_append]
  omega

/-- Where one range after the other is cut short. -/
def RangesStuck (text : List Char) : Prop :=
  RangeStuck text ∨ BeginsWith (Text.foldCase · = ',') text

/-- What is noted of a range and those behind it. -/
def ListNotes (ranges : (List Char × Option (List Char)) × List (List Char × Option (List Char)))
    (start stop : Place) : Prop :=
  (∀ range ∈ ranges.1 :: ranges.2, RangeDigits range) ∧
    ∃ text, text = [','].intercalate ((ranges.1 :: ranges.2).map rangeString) ∧
      Notes text [4] start stop ∧ cut? stop 4 = some (some text)

/-- The expression for the list is led by the reading of its ranges, one after another. -/
theorem list_leads :
    Leads RangesStuck (capture 4 (seq rangeRegex (many (seq (word ",") rangeRegex))))
      (rangeText >>= fun range => .many (.word "," >>= fun _ => rangeText) >>= fun ranges =>
        pure (range, ranges)) ListNotes := by
  have opens := (Opens.word "," ',' rfl).seq rangeRegex
  have apart := range_apart ',' rfl (by decide) (by decide)
  have more := nextRange_leads.many opens.needs apart fun _ _ _ => length_of_nextRange
  have always := fun range : List Char × Option (List Char) =>
    (Pattern.always_many (Pattern.word "," >>= fun _ => rangeText)).bind fun ranges =>
      Pattern.always_pure (range, ranges)
  have passes : ∀ place, RangeStuck place.rest →
      ∀ stop ∈ (many (seq (word ",") rangeRegex)).paths place, RangesStuck stop.rest := by
    intro place stuck stop mem
    rw [paths_many_of_nil (opens place (apart _ stuck))] at mem
    obtain rfl := List.mem_singleton.1 mem
    exact .inl stuck
  have list := range_leads.seq_always (fun range => more.map fun ranges => (range, ranges)) always
    passes
  refine (list.capture 4).weaken (fun _ => id) ?_
  rintro _ start _ ⟨inner, ⟨range, middle, ⟨digits, passes⟩, ranges, rfl, steps⟩, rfl⟩
  refine ⟨List.forall_mem_cons.2 ⟨digits, steps.forall fun _ _ _ marks => marks.1⟩, ?_⟩
  have listed := passes.append
    (steps.passes (fun range => ',' :: rangeString range) fun _ _ _ marks => marks.2)
  have text : rangeString range ++ ranges.flatMap (fun range => ',' :: rangeString range) =
      [','].intercalate ((range :: ranges).map rangeString) := by
    rw [List.map_cons, Text.intercalate_cons, List.flatMap_map]
  exact ⟨_, text, (Notes.of_passes listed).close 4, cut?_close listed.toMoves 4⟩

/-- The expression for the highlighted lines is led by its reading: a list that was cut short is not
closed by a brace. -/
theorem ranges_leads : Leads (fun _ => True) rangesRegex rangesOption RangesNotes := by
  have apart (text : List Char) (stuck : RangesStuck text) :
      ¬ BeginsWith (Text.foldCase · = '\x7d') text := by
    rcases stuck with stuck | begins
    · exact range_apart '\x7d' rfl (by decide) (by decide) text stuck
    · refine begins.apart fun c comma brace => ?_
      cases comma.symm.trans brace
  have closed := list_leads.seq_opens
    (fun ranges => (Leads.sign "\x7d" '\x7d' rfl rfl).map fun _ => ranges.1 :: ranges.2)
    (Opens.word "\x7d" '\x7d' rfl) apart
  have whole := (Leads.sign "\x7b" '\x7b' rfl rfl).seq_free fun _ => closed.congr
    (Pattern.scan_bind_assoc rangeText (fun _ => .many (.word "," >>= fun _ => rangeText))
      fun range ranges => .word "\x7d" >>= fun _ => pure (range :: ranges))
  refine whole.weaken (fun _ _ => trivial) ?_
  rintro _ start stop ⟨⟨⟩, opened, left, ⟨range, ranges⟩, middle, ⟨digits, _, rfl, noted, cut⟩,
    ⟨⟩, rfl, right⟩
  have split : ([','].intercalate ((range :: ranges).map rangeString)).splitOn ',' =
      (range :: ranges).map rangeString := by
    refine List.splitOn_intercalate ',' (fun cs mem => ?_) nofun
    obtain ⟨read, memRead, rfl⟩ := List.mem_map.1 mem
    exact (digits read memRead).not_mem
  refine ⟨_, _, ((Notes.of_passes left).append noted).append (Notes.of_passes right),
    rangesOption_of_digits nofun digits, ((Notes.of_passes right).cut? nofun).trans cut, ?_⟩
  rw [split]
  exact mapM_cutRange? digits

/-! ## The group option -/

/-- What is noted by the group option: its name. -/
def GroupNotes (name : List Char) (start stop : Place) : Prop :=
  ∃ text, Notes text [5] start stop ∧ GroupOption text (String.ofList name) ∧
    cut? stop 5 = some (some name)

/-- The expression for the group is led by its reading, and the name is the fifth group. -/
theorem group_leads : Leads (fun _ => True) groupRegex groupOption GroupNotes := by
  have apart (text : List Char) (stuck : BeginsWith (Text.isWordCharacter · = true) text) :
      ¬ BeginsWith (Text.foldCase · = ']') text := by
    refine stuck.apart fun c holds same => ?_
    obtain rfl := Text.eq_of_foldCase same rfl
    exact absurd holds (by decide +kernel)
  have closed := ((Leads.run1 Text.isWordCharacter).capture 5).seq_opens
    (fun name => (Leads.sign "]" ']' rfl rfl).map fun _ => name) (Opens.word "]" ']' rfl) apart
  have whole := (Leads.sign "[" '[' rfl rfl).seq_free fun _ => closed
  refine whole.weaken (fun _ _ => trivial) ?_
  rintro name start stop ⟨⟨⟩, opened, left, _, middle, ⟨inner, ⟨some, all, passes⟩, rfl⟩, ⟨⟩, rfl,
    right⟩
  have noted := (Notes.of_passes passes).close 5
  refine ⟨_, ((Notes.of_passes left).append noted).append (Notes.of_passes right),
    .brackets some all, ?_⟩
  rw [(Notes.of_passes right).cut? nofun]
  exact cut?_close passes.toMoves 5

/-! ## The whole info string -/

theorem cut?_of_unset {place : Place} {n : Nat} (unset : place.groups n = none) :
    cut? place n = some none := by
  rw [cut?, groupText?, unset]

theorem Notes.nil (numbers : List Nat) (start : Place) : Notes [] numbers start start :=
  ⟨.nil start, fun _ _ => rfl⟩

/-- With or without the option, the numbering is cut out as it was read. -/
theorem cut_numbering {numbering : Option LineNumbering} {start stop : Place}
    (perhaps : Perhaps NumberingNotes numbering start stop)
    (unset : start.groups 2 = none ∧ start.groups 3 = none) :
    ∃ text option number, Notes text [2, 3] start stop ∧ cut? stop 2 = some option ∧
      cut? stop 3 = some number ∧ ∀ config, cutNumbering? config option number =
        some (numbering.getD (defaultNumbering config)) := by
  cases perhaps with
  | absent =>
    exact ⟨[], none, none, .nil _ _, cut?_of_unset unset.1, cut?_of_unset unset.2,
      fun _ => rfl⟩
  | present marks =>
    obtain ⟨text, option, number, notes, _, cut, cut', read⟩ := marks
    exact ⟨text, some option, number, notes, cut, cut' unset.2, read⟩

/-- With or without the option, the ranges are cut out as they were read. -/
theorem cut_ranges {ranges : Option (List (List Char × Option (List Char)))} {start stop : Place}
    (perhaps : Perhaps RangesNotes ranges start stop) (unset : start.groups 4 = none) :
    ∃ text inner, Notes text [4] start stop ∧ cut? stop 4 = some inner ∧
      ((inner.map (·.splitOn ',')).getD []).mapM cutRange? =
        some ((ranges.getD []).map readRange) := by
  cases perhaps with
  | absent => exact ⟨[], none, .nil _ _, cut?_of_unset unset, rfl⟩
  | present marks =>
    obtain ⟨text, inner, notes, _, cut, read⟩ := marks
    exact ⟨text, some inner, notes, cut, read⟩

/-- With or without the option, the group is cut out as it was read. -/
theorem cut_group {name : Option (List Char)} {start stop : Place}
    (perhaps : Perhaps GroupNotes name start stop) (unset : start.groups 5 = none) :
    ∃ text, Notes text [5] start stop ∧ cut? stop 5 = some name := by
  cases perhaps with
  | absent => exact ⟨[], .nil _ _, cut?_of_unset unset⟩
  | present marks =>
    obtain ⟨text, notes, _, cut⟩ := marks
    exact ⟨text, notes, cut⟩

/-- The fence that is made of what was read of an info string. -/
def ofParts (config : Config) (language : List Char) (option : Option LineNumbering)
    (ranges : Option (List (List Char × Option (List Char)))) (group : Option (List Char)) :
    Fence where
  language := String.ofList language
  numbering := option.getD (defaultNumbering config)
  highlighted := (ranges.getD []).filterMap readRange
  group := group.map String.ofList

/-- The three options behind the language. -/
def options (config : Config) (language : List Char) : Pattern Fence := do
  let option ← .optional numberingOption
  let ranges ← .optional rangesOption
  let group ← .optional groupOption
  return ofParts config language option ranges group

theorem reading_eq (config : Config) :
    reading (defaultNumbering config) = languageName >>= options config := rfl

theorem always_options (config : Config) (language : List Char) :
    (options config language).Always :=
  (Pattern.always_optional _).bind fun _ => (Pattern.always_optional _).bind fun _ =>
    (Pattern.always_optional _).bind fun _ => Pattern.always_pure _

/-- The whole expression is led by the reading of the language and the options, and the fence is
made of what it has noted. -/
theorem info_leads (config : Config) :
    Leads (fun _ => True) infoRegex (reading (defaultNumbering config)) fun fence start stop =>
      (∀ n, start.groups n = none) → ofPlace? config start.text stop = some (some fence) := by
  have numbering := numbering_leads.optional ((Opens.word ":" ':' rfl).seq _)
  have ranges := ranges_leads.optional ((Opens.word "\x7b" '\x7b' rfl).seq _)
  have group := group_leads.optional ((Opens.word "[" '[' rfl).seq _)
  have third := fun language option ranges => group.map (ofParts config language option ranges)
  have second := fun language option => ranges.seq_last (third language option) fun _ =>
    (Pattern.always_optional _).bind fun _ => Pattern.always_pure _
  have first := fun language => numbering.seq_last (second language) fun _ =>
    (Pattern.always_optional _).bind fun _ =>
      (Pattern.always_optional _).bind fun _ => Pattern.always_pure _
  refine (language_leads.seq_last first (always_options config)).weaken (fun _ _ => trivial) ?_
  rintro _ start stop ⟨language, named, ⟨noted, cut⟩, option, numbered, hasOption, ranges, ranged,
    hasRanges, group, rfl, hasGroup⟩ unset
  have unset1 (n : Nat) (other : n ∉ [1]) : named.groups n = none :=
    (noted.kept n other).trans (unset n)
  obtain ⟨_, option', number, noted', cut2, cut3, readNumbering⟩ :=
    cut_numbering hasOption ⟨unset1 2 (by decide), unset1 3 (by decide)⟩
  have unset2 (n : Nat) (other : n ∉ [1] ∧ n ∉ [2, 3]) : numbered.groups n = none :=
    (noted'.kept n other.2).trans (unset1 n other.1)
  obtain ⟨_, inner, noted'', cut4, readRanges⟩ := cut_ranges hasRanges (unset2 4 (by decide))
  have unset3 : ranged.groups 5 = none :=
    (noted''.kept 5 (by decide)).trans (unset2 5 (by decide))
  obtain ⟨_, noted''', cut5⟩ := cut_group hasGroup unset3
  have later := noted''.append noted'''
  have others := noted'.append later
  have text : stop.text = start.text := (noted.append others).toMoves.text
  have readRanges' : (((ranges.getD []).map readRange).filterMap id) =
      (ranges.getD []).filterMap readRange := by
    rw [List.filterMap_map]
    rfl
  rw [← others.cut? (by decide)] at cut
  rw [← later.cut? (by decide)] at cut2 cut3
  rw [← noted'''.cut? (by decide)] at cut4
  simp only [cut?, text] at cut cut2 cut3 cut4 cut5
  simp only [ofPlace?, cut, cut2, cut3, cut4, cut5, readNumbering, readRanges,
    Option.bind_eq_bind, Option.bind_some, readRanges']
  rfl

/-- **Nothing is cut out of range, and what is cut out makes the fence that is read.** -/
theorem ofSpans?_eq (config : Config) (info : String) :
    ofSpans? config info.toList = some (ofText? config info) := by
  obtain ⟨missed, hit⟩ := (info_leads config).search? info.toList
  rw [ofSpans?, ofText?]
  cases found : (reading (defaultNumbering config)).find? info.toList with
  | none =>
    rw [missed found]
    rfl
  | some read =>
    obtain ⟨behind, stop, text, _, stopped, cuts⟩ := hit read.1 read.2 found
    have cut := cuts fun _ => rfl
    rw [stopped]
    rw [Place.text, ← text] at cut
    exact cut

end CodeListing.Fence
