import CodeListing.Line.Comment.Grammar
import CodeListing.Proofs.Spans
import CodeListing.Proofs.Words

/-!
# Directive comments are taken off by their grammar

`split_takes_off` compares what is taken off a line with the grammar of directive comments and with
the cut at the spans of a regular expression.  A comment is read without going back, because each of
its parts ends in front of a character that the part cannot go on with (`closed_leads`), and reading
it succeeds where a comment stands (`scan_comment`) and only there (`comment_of_scan`).
-/

namespace CodeListing.DirectiveComment

open Regex
open Fence (InAnyCase cut?)
open Pattern (BeginsWith)

/-! ## Words with white space in front of them -/

/-- Whether a word may hold the character. -/
def inWord (c : Char) : Bool := !Text.isWhiteSpace c && c != ']'

theorem inWord_iff {c : Char} : inWord c = true ↔ Text.isWhiteSpace c = false ∧ c ≠ ']' := by
  simp [inWord]

theorem word_iff {text : List Char} : Word text ↔ text ≠ [] ∧ ∀ c ∈ text, inWord c = true := by
  simp only [inWord_iff]
  exact Iff.rfl

theorem spacedWord_eq : spacedWord = .run1 Text.isWhiteSpace >>= fun _ => .run1 inWord := rfl

theorem not_space_of_inWord (c : Char) (inside : inWord c = true) :
    ¬ Text.isWhiteSpace c = true := by
  rw [(inWord_iff.1 inside).1]
  exact Bool.false_ne_true

/-- A scanned word reaches as far as it can, and there is white space in front of it. -/
theorem scan_spacedWord_eq_some_iff {text word rest : List Char} :
    spacedWord.scan text = some (word, rest) ↔ ∃ space, text = space ++ (word ++ rest) ∧
      Space space ∧ Word word ∧ ¬ BeginsWith (inWord · = true) rest := by
  rw [spacedWord_eq, Pattern.scan_bind, Option.bind_eq_some_iff]
  constructor
  · rintro ⟨⟨space, left⟩, first, second⟩
    obtain ⟨rfl, some, white, _⟩ := Pattern.scan_run1_eq_some_iff.1 first
    obtain ⟨rfl, some', inside, outside⟩ := Pattern.scan_run1_eq_some_iff.1 second
    exact ⟨space, rfl, ⟨some, white⟩, word_iff.2 ⟨some', inside⟩, outside⟩
  · rintro ⟨space, rfl, ⟨some, white⟩, isWord, outside⟩
    obtain ⟨some', inside⟩ := word_iff.1 isWord
    have stop : ¬ BeginsWith (Text.isWhiteSpace · = true) (word ++ rest) := by
      obtain ⟨c, cs, rfl⟩ := List.exists_cons_of_ne_nil some'
      exact not_space_of_inWord c (inside c List.mem_cons_self)
    exact ⟨_, Pattern.scan_run1_eq_some_iff.2 ⟨rfl, some, white, stop⟩,
      Pattern.scan_run1_eq_some_iff.2 ⟨rfl, some', inside, outside⟩⟩

/-- Behind white space, if there is any, there is a word. -/
def WordAhead (text : List Char) : Prop :=
  BeginsWith (inWord · = true) (text.dropWhile Text.isWhiteSpace)

theorem wordAhead_of_inWord {text : List Char} (begins : BeginsWith (inWord · = true) text) :
    WordAhead text := by
  cases text with
  | nil => exact begins
  | cons c text =>
    rw [WordAhead, List.dropWhile_cons_of_neg (not_space_of_inWord c begins)]
    exact begins

theorem ahead_of_scan_spacedWord {text word rest : List Char}
    (scanned : spacedWord.scan text = some (word, rest)) :
    BeginsWith (Text.isWhiteSpace · = true) text ∧ WordAhead text := by
  obtain ⟨space, rfl, ⟨some, white⟩, isWord, _⟩ := scan_spacedWord_eq_some_iff.1 scanned
  obtain ⟨some', inside⟩ := word_iff.1 isWord
  obtain ⟨c, cs, rfl⟩ := List.exists_cons_of_ne_nil some'
  have first := inside c List.mem_cons_self
  constructor
  · obtain ⟨d, ds, rfl⟩ := List.exists_cons_of_ne_nil some
    exact white d List.mem_cons_self
  · have stops : ¬ BeginsWith (Text.isWhiteSpace · = true) (c :: cs ++ rest) :=
      Pattern.not_beginsWith_cons (not_space_of_inWord c first) _
    rw [WordAhead, (Pattern.run_append white stops).2]
    exact first

theorem scan_spacedWord_eq_none {text : List Char} (not : ¬ WordAhead text) :
    spacedWord.scan text = none :=
  Option.eq_none_iff_forall_ne_some.2 fun _ scanned => not (ahead_of_scan_spacedWord scanned).2

/-- The regular expression, which might give back characters of a word, reads what the scan reads.
-/
theorem spacedWord_leads : Leads (BeginsWith (inWord · = true)) spacedWordRegex spacedWord
    fun word start stop => Word word ∧ ∃ space, Space space ∧ Passes (space ++ word) start stop := by
  have opens := (Opens.one inWord).seq (many (one inWord))
  have both := (Leads.run1 Text.isWhiteSpace).seq_opens (fun _ => Leads.run1 inWord) opens
    fun text white => white.apart fun c isWhite inside => not_space_of_inWord c inside isWhite
  refine both.weaken (fun _ => id) ?_
  rintro word start stop ⟨space, middle, ⟨some, white, passes⟩, some', inside, passes'⟩
  exact ⟨word_iff.2 ⟨some', inside⟩, space, ⟨some, white⟩, passes.append passes'⟩

/-- The regular expression for a word matches nowhere unless white space and a word are ahead. -/
theorem spacedWord_needs : Needs
    (fun text => BeginsWith (Text.isWhiteSpace · = true) text ∧ WordAhead text)
    spacedWordRegex := by
  intro start not
  refine spacedWord_leads.fails start (Option.eq_none_iff_forall_ne_some.2 fun read scanned => ?_)
  exact not (ahead_of_scan_spacedWord scanned)

theorem length_of_spacedWord {text word rest : List Char}
    (scanned : spacedWord.scan text = some (word, rest)) : rest.length < text.length := by
  obtain ⟨space, rfl, ⟨some, _⟩, _⟩ := scan_spacedWord_eq_some_iff.1 scanned
  have := List.length_pos_iff.2 some
  simp only [List.length_append]
  omega

/-- Words that are read one after the other are the words of the text that they take. -/
theorem spacedWords_of_successive {words : List (List Char)} {start stop : Place}
    (steps : Successive (fun word start stop =>
      Word word ∧ ∃ space, Space space ∧ Passes (space ++ word) start stop) words start stop) :
    ∃ text, SpacedWords text words ∧ Passes text start stop := by
  induction steps with
  | done => exact ⟨[], .nil, .nil _⟩
  | step marks _ ih =>
    obtain ⟨isWord, space, isSpace, passes⟩ := marks
    obtain ⟨text, spaced, passes'⟩ := ih
    exact ⟨_, .cons isSpace isWord spaced, by
      rw [← List.append_assoc]
      exact passes.append passes'⟩

/-- All the words are read, and wherever else the reading could leave off there is one more. -/
theorem words_leads : Leads WordAhead (plus spacedWordRegex) (.many1 spacedWord)
    fun words start stop => words ≠ [] ∧ ∃ text, SpacedWords text words ∧ Passes text start stop := by
  have apart (text : List Char) (begins : BeginsWith (inWord · = true) text) :
      ¬ (BeginsWith (Text.isWhiteSpace · = true) text ∧ WordAhead text) :=
    fun both => begins.apart (fun c inside => not_space_of_inWord c inside) both.1
  have more := spacedWord_leads.many spacedWord_needs apart fun _ _ _ => length_of_spacedWord
  have always := fun word : List Char => (Pattern.always_many spacedWord).bind fun words =>
    Pattern.always_pure (word :: words)
  have list := spacedWord_leads.seq_always (fun word => more.map fun words => word :: words) always
    fun place begins stop mem => by
      rw [paths_many_of_nil (spacedWord_needs place (apart _ begins))] at mem
      obtain rfl := List.mem_singleton.1 mem
      exact .inl begins
  refine list.weaken ?_ ?_
  · rintro text (begins | ⟨_, ahead⟩)
    · exact wordAhead_of_inWord begins
    · exact ahead
  · rintro _ start stop ⟨word, middle, ⟨isWord, space, isSpace, passes⟩, words, rfl, steps⟩
    obtain ⟨text, spaced, passes'⟩ := spacedWords_of_successive steps
    refine ⟨nofun, _, .cons isSpace isWord spaced, ?_⟩
    rw [← List.append_assoc]
    exact passes.append passes'

/-- Words begin with the white space in front of the first. -/
theorem SpacedWords.head {text : List Char} {words : List (List Char)}
    (spaced : SpacedWords text words) : ∀ c ∈ text.head?, Text.isWhiteSpace c = true := by
  cases spaced with
  | nil => exact nofun
  | cons isSpace _ _ =>
    obtain ⟨c, cs, rfl⟩ := List.exists_cons_of_ne_nil isSpace.1
    intro d mem
    obtain rfl := Option.some.inj mem
    exact isSpace.2 c List.mem_cons_self

theorem SpacedWords.length_le {text : List Char} {words : List (List Char)}
    (spaced : SpacedWords text words) : words.length ≤ text.length := by
  induction spaced with
  | nil => exact Nat.le_refl _
  | cons isSpace _ _ ih =>
    have := List.length_pos_iff.2 isSpace.1
    simp only [List.length_cons, List.length_append]
    omega

/-- In front of words, or behind the last of them, no word goes on. -/
theorem SpacedWords.not_inWord {text rest : List Char} {words : List (List Char)}
    (spaced : SpacedWords text words) (outside : ¬ WordAhead rest) :
    ¬ BeginsWith (inWord · = true) (text ++ rest) := by
  cases text with
  | nil => exact mt wordAhead_of_inWord outside
  | cons c text =>
    intro inside
    exact not_space_of_inWord c inside (spaced.head c rfl)

/-- All the words are scanned one by one, if the budget allows for their number. -/
theorem SpacedWords.repeated {text rest : List Char} {words : List (List Char)}
    (spaced : SpacedWords text words) (outside : ¬ WordAhead rest) (budget : Nat)
    (done : List (List Char)) (enough : words.length ≤ budget) :
    Pattern.repeated spacedWord.scan budget done (text ++ rest) = (done.reverse ++ words, rest) := by
  induction spaced generalizing budget done with
  | nil =>
    rw [List.append_nil]
    exact Pattern.repeated_of_none (scan_spacedWord_eq_none outside) budget done
  | @cons space word text words isSpace isWord spaced ih =>
    rw [List.length_cons] at enough
    obtain ⟨budget, rfl⟩ : ∃ b, budget = b + 1 := ⟨budget - 1, by omega⟩
    have step := scan_spacedWord_eq_some_iff.2
      ⟨space, rfl, isSpace, isWord, spaced.not_inWord outside⟩
    rw [List.append_assoc, List.append_assoc, Pattern.repeated, step]
    refine (ih budget (word :: done) (by omega)).trans ?_
    rw [List.reverse_cons, List.append_assoc, List.singleton_append]

/-- The words of a text are what is scanned of it, if no further word is ahead. -/
theorem SpacedWords.scan {text rest : List Char} {words : List (List Char)}
    (spaced : SpacedWords text words) (any : words ≠ []) (outside : ¬ WordAhead rest) :
    (Pattern.many1 spacedWord).scan (text ++ rest) = some (words, rest) := by
  cases spaced with
  | nil => exact absurd rfl any
  | @cons space word text words isSpace isWord spaced =>
    have first := scan_spacedWord_eq_some_iff.2
      ⟨space, rfl, isSpace, isWord, spaced.not_inWord outside⟩
    have enough : words.length ≤ (text ++ rest).length := by
      rw [List.length_append]
      exact Nat.le_add_right_of_le spaced.length_le
    have others : (Pattern.many spacedWord).scan (text ++ rest) = some (words, rest) := by
      rw [Pattern.scan_many, spaced.repeated outside _ [] enough]
      rfl
    rw [List.append_assoc, List.append_assoc, Pattern.many1, Pattern.scan_bind_of_some first,
      Pattern.scan_bind_of_some others]
    rfl

/-! ## Cutting the words at white space -/

/-- A word with white space behind it is the first of the words cut at white space. -/
theorem words_of_word {word text : List Char} (isWord : Word word)
    (head : ∀ c ∈ text.head?, Text.isWhiteSpace c = true) :
    Text.words (word ++ text) = word :: Text.words text := by
  have unspaced : Text.IsWord word := ⟨isWord.1, fun c mem => (isWord.2 c mem).1⟩
  cases text with
  | nil => rw [List.append_nil, unspaced.words_eq]; rfl
  | cons space text =>
    have white : Text.isWhiteSpace space = true := head space rfl
    have skipped : Text.words (space :: text) = Text.words text :=
      Text.words_append_cons white [] text
    rw [unspaced.words_append_cons white, skipped]

/-- Cutting the text at white space once more gives the words that were read. -/
theorem SpacedWords.words_eq {text : List Char} {words : List (List Char)}
    (spaced : SpacedWords text words) : Text.words text = words := by
  induction spaced with
  | nil => rfl
  | cons isSpace isWord spaced ih =>
    rw [Text.words_white_append isSpace.2, words_of_word isWord spaced.head, ih]

/-! ## Comments up to their bracket -/

/-- A directive comment up to its closing bracket. -/
def closed : Pattern (List (List Char)) := do
  .word "//"
  let _ ← .run1 Text.isWhiteSpace
  .word "[!code"
  let words ← .many1 spacedWord
  let _ ← .run Text.isWhiteSpace
  .word "]"
  return words

theorem scan_reading (text : List Char) :
    reading.scan text =
      (closed >>= fun words => .lineEnd Text.isWhiteSpace >>= fun _ => pure words).scan text := by
  simp only [reading, closed, Pattern.scan_bind, Option.bind_assoc]
  rfl

/-- Behind the words a closing bracket ends the scan, for it belongs to no word. -/
theorem not_wordAhead {inner : List Char} (white : ∀ c ∈ inner, Text.isWhiteSpace c = true)
    (rest : List Char) : ¬ WordAhead (inner ++ ']' :: rest) := by
  have stops : ¬ BeginsWith (Text.isWhiteSpace · = true) (']' :: rest) :=
    Pattern.not_beginsWith_cons (by decide) _
  rw [WordAhead, (Pattern.run_append white stops).2]
  exact Pattern.not_beginsWith_cons (by decide) _

/-- White space is not taken for a sign, whatever the case. -/
theorem space_apart {l : Char} (noLetter : l.isLower = false)
    (noSpace : Text.isWhiteSpace l = false) (text : List Char)
    (white : BeginsWith (Text.isWhiteSpace · = true) text) :
    ¬ BeginsWith (Text.foldCase · = l) text := by
  refine white.apart fun c isWhite folded => ?_
  obtain rfl := Text.eq_of_foldCase folded noLetter
  rw [noSpace] at isWhite
  cases isWhite

/-- The bracket that closes a comment, with white space in front of it. -/
theorem bracket_leads (words : List (List Char)) :
    Leads (fun _ => False) (seq (many (one Text.isWhiteSpace)) (word "]"))
      (.run Text.isWhiteSpace >>= fun _ => .word "]" >>= fun _ => pure words)
      fun words' start stop => words' = words ∧ ∃ inner,
        (∀ c ∈ inner, Text.isWhiteSpace c = true) ∧ Passes (inner ++ [']']) start stop := by
  have sign := (Leads.sign "]" ']' rfl rfl).map fun _ => words
  have both := (Leads.run Text.isWhiteSpace).seq_opens (fun _ => sign) (Opens.word "]" ']' rfl)
    (space_apart rfl (by decide))
  refine both.weaken (fun _ => id) ?_
  rintro words' start stop ⟨inner, middle, ⟨white, passes⟩, ⟨⟩, rfl, passes'⟩
  exact ⟨rfl, inner, white, passes.append passes'⟩

/-- No bracket can be read where there is a word ahead. -/
theorem bracket_needs (place : Place) (ahead : WordAhead place.rest) :
    (seq (many (one Text.isWhiteSpace)) (word "]")).paths place = [] := by
  refine (bracket_leads []).fails place ?_
  have sign : (Pattern.word "]").scan (place.rest.dropWhile Text.isWhiteSpace) = none := by
    refine Pattern.scan_word_eq_none (l := ']') rfl
      (BeginsWith.apart (fun c inside same => ?_) ahead)
    exact (inWord_iff.1 inside).2 (Text.eq_of_foldCase same rfl)
  rw [Pattern.scan_bind_of_some (Pattern.scan_run _ place.rest), Pattern.scan_bind, sign,
    Option.bind_none]

theorem eq_slashes {text : List Char} (folded : text.map Text.foldCase = ['/', '/']) :
    text = ['/', '/'] := by
  obtain ⟨a, tail, rfl, left, folded⟩ := List.map_eq_cons_iff.1 folded
  obtain ⟨b, rfl, right⟩ := List.map_eq_singleton_iff.1 folded
  rw [Text.eq_of_foldCase left rfl, Text.eq_of_foldCase right rfl]

theorem head_of_inAnyCase {text : List Char} (named : InAnyCase "[!code" text) :
    ∃ tail, text = '[' :: tail := by
  have folded : text.map Text.foldCase = '[' :: "!code".toList := named
  obtain ⟨c, tail, rfl, first, _⟩ := List.map_eq_cons_iff.1 folded
  exact ⟨tail, by rw [Text.eq_of_foldCase first rfl]⟩

/-- What is noted of a comment: the text of its words. -/
def ClosedNotes (words : List (List Char)) (start stop : Place) : Prop :=
  ∃ text inside, Moves text start stop ∧ Closed text words ∧
    cut? stop 1 = some (some inside) ∧ Text.words inside = words

/-- The regular expression for a comment up to its bracket reads what the scan reads, and notes the
words. -/
theorem closed_leads : Leads (fun _ => False) closedRegex closed ClosedNotes := by
  have ends := (words_leads.capture 1).seq_closed bracket_leads bracket_needs
  have named := (Leads.word "[!code").seq_free fun _ => ends
  have spaced := (Leads.run1 Text.isWhiteSpace).seq_opens (fun _ => named)
    ((Opens.word "[!code" '[' rfl).seq _) (space_apart rfl (by decide))
  refine ((Leads.word "//").seq_free fun _ => spaced).weaken (fun _ => id) ?_
  rintro _ start stop ⟨⟨⟩, slashed, ⟨slashes, folded, passes₁⟩, space, opened,
    ⟨some, white, passes₂⟩, ⟨⟩, behind, ⟨name, isName, passes₃⟩, words, _,
    ⟨last, ⟨any, text, spaced, passes₄⟩, rfl⟩, rfl, inner, white', passes₅⟩
  have text₄ : Moves text behind (last.close 1 behind) := ⟨passes₄.rest, passes₄.before⟩
  have moves := passes₁.toMoves.append (passes₂.toMoves.append
    (passes₃.toMoves.append (text₄.append passes₅.toMoves)))
  have cut := (Fence.Notes.of_passes passes₅).cut? (n := 1) nofun
  rw [Fence.cut?_close passes₄.toMoves 1] at cut
  obtain rfl := eq_slashes folded
  exact ⟨_, text, moves, .closed ⟨some, white⟩ isName spaced any white', cut, spaced.words_eq⟩

/-- Every comment up to its bracket is scanned whole, with its words. -/
theorem scan_closed {text : List Char} {words : List (List Char)} (isClosed : Closed text words)
    (rest : List Char) : closed.scan (text ++ rest) = some (words, rest) := by
  cases isClosed with
  | @closed space name text inner words isSpace isName spaced any white =>
    have slashes : (Pattern.word "//").scan
        ('/' :: '/' :: (space ++ (name ++ (text ++ (inner ++ [']'])))) ++ rest) =
          some ((), space ++ (name ++ (text ++ (inner ++ ']' :: rest)))) := by
      have folded : InAnyCase "//" ['/', '/'] := rfl
      have sign := Pattern.scan_word folded (space ++ (name ++ (text ++ (inner ++ ']' :: rest))))
      simpa using sign
    have outside : ¬ BeginsWith (Text.isWhiteSpace · = true)
        (name ++ (text ++ (inner ++ ']' :: rest))) := by
      obtain ⟨tail, rfl⟩ := head_of_inAnyCase isName
      exact Pattern.not_beginsWith_cons (by decide) _
    have gap : (Pattern.run1 Text.isWhiteSpace).scan
        (space ++ (name ++ (text ++ (inner ++ ']' :: rest)))) =
          some (space, name ++ (text ++ (inner ++ ']' :: rest))) :=
      Pattern.scan_run1_eq_some_iff.2 ⟨rfl, isSpace.1, isSpace.2, outside⟩
    have list := spaced.scan any (not_wordAhead white rest)
    have run : (Pattern.run Text.isWhiteSpace).scan (inner ++ ']' :: rest) =
        some (inner, ']' :: rest) :=
      Pattern.scan_run_append white (Pattern.not_beginsWith_cons (by decide) _)
    have bracket : (Pattern.word "]").scan (']' :: rest) = some ((), rest) :=
      Pattern.scan_sign rfl rfl _
    rw [DirectiveComment.closed, Pattern.scan_bind_of_some slashes, Pattern.scan_bind_of_some gap,
      Pattern.scan_bind_of_some (Pattern.scan_word isName _), Pattern.scan_bind_of_some list,
      Pattern.scan_bind_of_some run, Pattern.scan_bind_of_some bracket]
    rfl

/-! ## Comments up to the end of a line -/

/-- A comment is scanned to its end, with its words. -/
theorem scan_comment {text : List Char} {words : List (List Char)} (isComment : Comment text words) :
    reading.scan text = some (words, []) := by
  cases isComment with
  | comment isClosed white =>
    rw [scan_reading, Pattern.scan_bind_of_some (scan_closed isClosed _),
      Pattern.scan_bind_of_some (Pattern.scan_lineEnd_of_forall white)]
    rfl

/-- What is scanned is a comment, behind which the text or a line ends. -/
theorem comment_of_scan {text rest : List Char} {words : List (List Char)}
    (scanned : reading.scan text = some (words, rest)) :
    ∃ comment, text = comment ++ rest ∧ Comment comment words ∧
      (rest = [] ∨ ∃ more, rest = '\n' :: more) := by
  rw [scan_reading, Pattern.scan_bind, Option.bind_eq_some_iff] at scanned
  obtain ⟨⟨words', left⟩, isClosed, ended⟩ := scanned
  simp only [Pattern.scan_bind, Option.bind_eq_some_iff] at ended
  obtain ⟨⟨⟨⟩, left'⟩, ended, made⟩ := ended
  obtain ⟨rfl, rfl⟩ := Prod.mk.inj (Option.some.inj made)
  obtain ⟨stop, rfl, front, _, moves, isClosed', _⟩ := closed_leads.exists_marks isClosed
  obtain ⟨outer, same, white, ends⟩ := Pattern.of_scan_lineEnd ended
  have all : text = front ++ stop.rest := moves.rest
  exact ⟨front ++ outer, by rw [all, same, List.append_assoc], .comment isClosed' white, ends⟩

/-- Where a line is not broken, what is read of it is a comment up to its end. -/
theorem scan_reading_eq_some_iff {text : List Char} (unbroken : '\n' ∉ text)
    {words : List (List Char)} {rest : List Char} :
    reading.scan text = some (words, rest) ↔ rest = [] ∧ Comment text words := by
  constructor
  · intro scanned
    obtain ⟨comment, rfl, isComment, rfl | ⟨more, rfl⟩⟩ := comment_of_scan scanned
    · rw [List.append_nil]
      exact ⟨rfl, isComment⟩
    · exact absurd (List.mem_append_right comment List.mem_cons_self) unbroken
  · rintro ⟨rfl, isComment⟩
    exact scan_comment isComment

/-- In a line nothing is scanned exactly where no comment reaches to the end. -/
theorem scan_reading_eq_none_iff {text : List Char} (unbroken : '\n' ∉ text) :
    reading.scan text = none ↔ ∀ words, ¬ Comment text words := by
  rw [Option.eq_none_iff_forall_ne_some]
  constructor
  · exact fun none words isComment => none _ (scan_comment isComment)
  · exact fun none read scanned => none _ ((scan_reading_eq_some_iff unbroken).1 scanned).2

/-- Of the readings of the regular expression, the first behind which a line ends is the scanned
one. -/
theorem comment_agrees : Agrees (fun start => (commentRegex.paths start).find? Place.endsLine)
    reading fun words start stop => ∃ middle inner : Place, ClosedNotes words start middle ∧
      inner.text = middle.text ∧ inner.groups = middle.groups ∧ stop = inner.close 0 start := by
  have newline : Text.isWhiteSpace '\n' = true := by decide
  have agrees := closed_leads.agrees_line newline 0
  constructor
  · intro start none
    rw [scan_reading] at none
    exact agrees.fails start none
  · intro start words rest scanned
    rw [scan_reading] at scanned
    exact agrees.reads start scanned

/-- **No cut is out of range, and what is cut out is what is taken off.** -/
theorem ofSpans?_eq (line : String) : ofSpans? line = some (split line) := by
  obtain ⟨missed, hit⟩ := comment_agrees.first line.toList
  rw [ofSpans?, split, searchLine?]
  cases found : reading.find? line.toList with
  | none =>
    rw [missed found]
  | some read =>
    obtain ⟨code, words⟩ := read
    obtain ⟨behind, stop, text, _, stopped, middle, inner, notes, sameText, sameGroups, rfl⟩ :=
      hit code words found
    obtain ⟨front, inside, moves, _, cut, cutWords⟩ := notes
    obtain ⟨first, last, noted, sliced⟩ := Fence.exists_of_cut? cut
    have same : middle.text = line.toList := moves.text.trans text.symm
    have front : Text.slice? line.toList 0 (Text.byteLength code) = some code := by
      have cut := Text.slice?_append [] code behind
      rwa [List.nil_append, Text.byteLength_nil, Nat.zero_add, ← text] at cut
    have group0 : (inner.close 0 ⟨code, behind, fun _ => none⟩).groups 0 =
        some (Text.byteLength code, inner.offset) := rfl
    have group1 : (inner.close 0 ⟨code, behind, fun _ => none⟩).groups 1 = some (first, last) := by
      rw [← noted, ← sameGroups]
      rfl
    rw [same] at sliced
    simp only [stopped, group0, group1, front, sliced, Option.bind_eq_bind, Option.bind_some,
      cutWords]
    rfl

/-! ## Lines -/

theorem split_of_find?_eq_none {line : String} (missed : reading.find? line.toList = none) :
    split line = ⟨line, []⟩ := by
  rw [split, missed]

theorem split_of_find?_eq_some {line : String} {code : List Char} {words : List (List Char)}
    (found : reading.find? line.toList = some (code, words)) :
    split line = ⟨String.ofList code, words.map String.ofList⟩ := by
  rw [split, found]

theorem unbroken_part {line code comment : List Char} (unbroken : '\n' ∉ line)
    (text : line = code ++ comment) : '\n' ∉ comment := by
  rw [text] at unbroken
  exact fun mem => unbroken (List.mem_append_right code mem)

/-- What a line comes to is what is left when its longest comment is taken off. -/
theorem takenOff_split {line : String} (unbroken : '\n' ∉ line.toList) :
    TakenOff line.toList (split line) := by
  cases found : reading.find? line.toList with
  | none =>
    rw [split_of_find?_eq_none found]
    have absent : TakenOff line.toList ⟨String.ofList line.toList, []⟩ := by
      refine .absent fun code comment words text => ?_
      have none := (Pattern.findFrom_eq_none_iff []).1 found code comment text
      exact (scan_reading_eq_none_iff (unbroken_part unbroken text)).1 none words
    rwa [String.ofList_toList] at absent
  | some read =>
    obtain ⟨code, words⟩ := read
    rw [split_of_find?_eq_some found]
    obtain ⟨inside, behind, rest, text, rfl, scanned, least⟩ :=
      (Pattern.findFrom_eq_some_iff []).1 found
    have isComment := ((scan_reading_eq_some_iff (unbroken_part unbroken text)).1 scanned).2
    refine .comment text isComment fun code' comment' words' text' isComment' => ?_
    by_contra shorter
    have none := least code' comment' text' (Nat.lt_of_not_le shorter)
    exact (scan_reading_eq_none_iff (unbroken_part unbroken text')).1 none words' isComment'

/-- Nothing else can be left of a line. -/
theorem TakenOff.eq_split {line : String} (unbroken : '\n' ∉ line.toList) {result : SplitLine}
    (taken : TakenOff line.toList result) : split line = result := by
  cases taken with
  | @comment code comment words text isComment least =>
    refine split_of_find?_eq_some ((Pattern.findFrom_eq_some_iff []).2
      ⟨code, comment, [], text, rfl, scan_comment isComment, fun code' comment' text' shorter => ?_⟩)
    refine (scan_reading_eq_none_iff (unbroken_part unbroken text')).2 fun words' isComment' => ?_
    exact absurd (least code' comment' words' text' isComment') (Nat.not_le_of_lt shorter)
  | absent none =>
    rw [String.ofList_toList]
    refine split_of_find?_eq_none ((Pattern.findFrom_eq_none_iff []).2 fun code comment text => ?_)
    exact (scan_reading_eq_none_iff (unbroken_part unbroken text)).2 fun words =>
      none code comment words text

/-! ## Comments as they are written -/

theorem space_blank : Space [' '] := by
  refine ⟨nofun, fun c mem => ?_⟩
  rw [List.mem_singleton.1 mem]
  decide

theorem spacedWords_flatMap {words : List (List Char)} (all : ∀ word ∈ words, Word word) :
    SpacedWords (words.flatMap (' ' :: ·)) words := by
  induction words with
  | nil => exact .nil
  | cons word words ih =>
    obtain ⟨first, others⟩ := List.forall_mem_cons.1 all
    exact .cons space_blank first (ih others)

/-- What is written for words is a comment with these words. -/
theorem comment_written {words : List String} (any : words ≠ [])
    (all : ∀ word ∈ words, Word word.toList) :
    Comment (written words).toList (words.map String.toList) := by
  obtain ⟨word, words, rfl⟩ := List.exists_cons_of_ne_nil any
  have all' : ∀ text ∈ (word :: words).map String.toList, Word text := by
    intro text mem
    obtain ⟨w, memWord, rfl⟩ := List.mem_map.1 mem
    exact all w memWord
  have named : InAnyCase "[!code" "[!code".toList := rfl
  have empty : ∀ c ∈ ([] : List Char), Text.isWhiteSpace c = true := nofun
  have whole := Comment.comment
    (.closed space_blank named (spacedWords_flatMap all') (List.cons_ne_nil _ _) empty) empty
  have text : (written (word :: words)).toList = '/' :: '/' :: ([' '] ++ ("[!code".toList ++
      (((word :: words).map String.toList).flatMap (' ' :: ·) ++ ([] ++ [']'])))) ++ [] := by
    rw [written, String.toList_append, String.toList_append, String.toList_intercalate,
      List.map_cons]
    change "// [!code ".toList ++ [' '].intercalate _ ++ _ = _
    rw [Text.intercalate_cons]
    simp
  rw [text]
  exact whole

/-- A comment begins with two slashes, white space and the mark. -/
theorem Comment.opens {text : List Char} {words : List (List Char)} (isComment : Comment text words) :
    ∃ space name more, text = '/' :: '/' :: (space ++ name ++ more) ∧ Space space ∧
      InAnyCase "[!code" name := by
  cases isComment with
  | @comment _ outer _ isClosed _ =>
    cases isClosed with
    | @closed space name spaced inner _ isSpace isName _ _ _ =>
      exact ⟨space, name, spaced ++ (inner ++ [']']) ++ outer, by simp, isSpace, isName⟩

/-- What has no slash in it ends in front of the slash. -/
theorem exists_append_of_slash {text before behind rest : List Char}
    (same : text ++ behind = before ++ '/' :: rest) (none : '/' ∉ text) :
    ∃ between, before = text ++ between := by
  rcases List.append_eq_append_iff.1 same with ⟨between, same, _⟩ | ⟨between, same, tail⟩
  · exact ⟨between, same⟩
  · cases between with
    | nil => exact ⟨[], by rw [same, List.append_nil, List.append_nil]⟩
    | cons c between =>
      obtain ⟨rfl, _⟩ := List.cons.inj tail
      rw [same] at none
      exact absurd (List.mem_append_right before List.mem_cons_self) none

/-- Between its slashes and its words a comment has no slash. -/
theorem slash_not_mem {space name : List Char} (isSpace : Space space)
    (isName : InAnyCase "[!code" name) : '/' ∉ space ++ name := by
  intro mem
  rcases List.mem_append.1 mem with mem | mem
  · exact absurd (isSpace.2 '/' mem) (by decide)
  · have folded : Text.foldCase '/' ∈ name.map Text.foldCase := List.mem_map_of_mem mem
    rw [isName] at folded
    exact absurd folded (by decide)

/-- In front of two slashes that stand behind an unmarked text no comment begins. -/
theorem Unmarked.scan_eq_none {base tail inside behind : List Char} (unmarked : Unmarked base)
    (whole : base ++ '/' :: '/' :: tail = inside ++ behind)
    (shorter : inside.length < base.length) : reading.scan behind = none := by
  refine Option.eq_none_iff_forall_ne_some.2 fun read scanned => ?_
  obtain ⟨comment, rfl, isComment, _⟩ := comment_of_scan scanned
  obtain ⟨space, name, more, rfl, isSpace, isName⟩ := isComment.opens
  have noSlash := slash_not_mem isSpace isName
  rcases List.append_eq_append_iff.1 whole with ⟨between, rfl, _⟩ | ⟨between, rfl, left⟩
  · rw [List.length_append] at shorter
    omega
  simp only [List.cons_append, List.append_assoc] at left
  -- the slashes of the comment stand in front of the two, astride of them, or inside the base
  match between, left with
  | [], _ =>
    rw [List.append_nil] at shorter
    exact Nat.lt_irrefl _ shorter
  | [c], left =>
    simp only [List.cons_append, List.nil_append, List.cons.injEq] at left
    obtain ⟨_, _, left⟩ := left
    have left : (space ++ name) ++ (more ++ read.snd) = [] ++ '/' :: tail := by
      rw [List.append_assoc, left, List.nil_append]
    obtain ⟨between, empty⟩ := exists_append_of_slash left noSlash
    simp [isSpace.1] at empty
  | c :: d :: between, left =>
    simp only [List.cons_append, List.cons.injEq] at left
    obtain ⟨rfl, rfl, left⟩ := left
    rw [← List.append_assoc] at left
    obtain ⟨more', rfl⟩ := exists_append_of_slash left noSlash
    exact unmarked (inside ++ '/' :: '/' :: space) name more' (by simp) isName

/-- A comment behind an unmarked text is taken off again. -/
theorem split_written {base : String} {words : List String} (unmarked : Unmarked base.toList)
    (any : words ≠ []) (all : ∀ word ∈ words, Word word.toList) :
    split (base ++ written words) = ⟨base, words⟩ := by
  have isComment := comment_written any all
  obtain ⟨tail, slashes⟩ : ∃ tail, (written words).toList = '/' :: '/' :: tail :=
    ⟨_, by rw [written, String.toList_append, String.toList_append]; rfl⟩
  have found : reading.find? (base ++ written words).toList =
      some (base.toList, words.map String.toList) := by
    rw [String.toList_append]
    refine (Pattern.findFrom_eq_some_iff []).2
      ⟨_, _, [], rfl, rfl, scan_comment isComment, fun inside behind text shorter => ?_⟩
    rw [slashes] at text
    exact unmarked.scan_eq_none text shorter
  rw [split_of_find?_eq_some found, String.ofList_toList, List.map_map]
  simp [Function.comp_def]

/-- **A directive comment is taken off by its grammar.**  What an unbroken line comes to is what
its grammar says; the same comes out, of any line, if it is searched with a regular expression and
cut at the spans that were noted, and no cut is out of range.  A comment that is written behind a
text without the mark of comments is taken off again. -/
theorem split_takes_off (line base : String) (words : List String) :
    ('\n' ∉ line.toList → ∀ result, split line = result ↔ TakenOff line.toList result) ∧
      ofSpans? line = some (split line) ∧
        (Unmarked base.toList → words ≠ [] → (∀ word ∈ words, Word word.toList) →
          split (base ++ written words) = ⟨base, words⟩) := by
  refine ⟨fun unbroken result => ⟨?_, fun taken => taken.eq_split unbroken⟩, ofSpans?_eq line,
    split_written⟩
  rintro rfl
  exact takenOff_split unbroken

/-- Of two comments that are both closed the last is taken off.  A word may be two slashes or the
mark itself, and half a mark in front of a comment is kept. -/
theorem split_takes_off_last :
    let line := "a // [!code focus] // [!CODE  hl ++ ]  "
    let result : SplitLine := ⟨"a // [!code focus] ", ["hl", "++"]⟩
    let base := "x / // [!cod"
    let words := ["//", "[!code", "x"]
    ('\n' ∉ line.toList ∧ TakenOff line.toList result ∧ ofSpans? line = some (split line)) ∧
      Unmarked base.toList ∧ words ≠ [] ∧ (∀ word ∈ words, Word word.toList) ∧
        split (base ++ written words) = ⟨base, words⟩ := by
  intro line result base words
  have unbroken : '\n' ∉ line.toList := by decide
  have taken : split line = result := by decide +kernel
  have unmarked : Unmarked base.toList := unmarked_iff.2 (by decide +kernel)
  have all : ∀ word ∈ words, Word word.toList := by decide +kernel
  obtain ⟨grammar, spans, again⟩ := split_takes_off line base words
  exact ⟨⟨unbroken, (grammar unbroken result).1 taken, spans⟩, unmarked, nofun, all,
    again unmarked nofun all⟩

end CodeListing.DirectiveComment
