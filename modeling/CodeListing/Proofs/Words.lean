import Mathlib.Data.List.Induction
import CodeListing.Text.WhiteSpace

/-!
# The words of a text

White space separates: the words of two texts with white space in between are the words of the one
and then those of the other (`words_append_cons`).  From this comes what the last word is, and that
a text without words is white.  White space at the ends of a text does not change its words
(`words_trim`).
-/

namespace CodeListing.Text

variable {text word : List Char}

/-! ## Words and white space -/

/-- Words are cut at every white space. -/
theorem words_append_cons {space : Char} (white : isWhiteSpace space = true)
    (before behind : List Char) :
    words (before ++ space :: behind) = words before ++ words behind := by
  rw [words, List.splitOnP_append_cons before behind white, List.filter_append]
  rfl

theorem words_white_append {before : List Char} (white : ∀ c ∈ before, isWhiteSpace c = true)
    (behind : List Char) : words (before ++ behind) = words behind := by
  induction before with
  | nil => rfl
  | cons space before ih =>
    obtain ⟨first, others⟩ := List.forall_mem_cons.1 white
    exact (words_append_cons first [] (before ++ behind)).trans (ih others)

theorem words_of_white (white : ∀ c ∈ text, isWhiteSpace c = true) : words text = [] := by
  have none := words_white_append white []
  rwa [List.append_nil] at none

theorem words_append_white (before : List Char) {behind : List Char}
    (white : ∀ c ∈ behind, isWhiteSpace c = true) : words (before ++ behind) = words before := by
  cases behind with
  | nil => rw [List.append_nil]
  | cons space behind =>
    obtain ⟨first, others⟩ := List.forall_mem_cons.1 white
    rw [words_append_cons first, words_of_white others, List.append_nil]

theorem IsWord.words_eq (isWord : IsWord word) : words word = [word] := by
  rw [words, List.splitOnP_eq_singleton isWord.2]
  simp [isWord.1]

theorem IsWord.words_append_cons (isWord : IsWord word) {space : Char}
    (white : isWhiteSpace space = true) (behind : List Char) :
    words (word ++ space :: behind) = word :: words behind := by
  rw [Text.words_append_cons white, isWord.words_eq, List.singleton_append]

theorem IsWord.words_append (isWord : IsWord word) {before : List Char}
    (apart : ∀ c ∈ before.getLast?, isWhiteSpace c = true) :
    words (before ++ word) = words before ++ [word] := by
  cases before using List.reverseRecOn with
  | nil => exact isWord.words_eq
  | append_singleton before space =>
    have white : isWhiteSpace space = true := apart space List.getLast?_concat
    have front : words (before ++ [space]) = words before :=
      words_append_white before (by simpa using white)
    rw [front, List.append_assoc, List.singleton_append, Text.words_append_cons white,
      isWord.words_eq]

/-! ## The last word -/

/-- The last word of a text is the last of its words, and the text before it has the others. -/
theorem LastWord.words_eq (last : LastWord word text) :
    ∃ before, before.length < text.length ∧ words text = words before ++ [word] := by
  obtain ⟨isWord, before, behind, rfl, apart, white⟩ := last
  refine ⟨before, ?_, ?_⟩
  · have some := List.length_pos_iff.2 isWord.1
    rw [List.length_append, List.length_append]
    omega
  · rw [← List.append_assoc, words_append_white _ white, isWord.words_append apart]

/-- A text that is not all white has a last word.  A character put in front of it makes that word
longer, if the word was all there was, or else stands apart from it. -/
theorem white_or_lastWord (text : List Char) :
    (∀ c ∈ text, isWhiteSpace c = true) ∨ ∃ word, LastWord word text := by
  induction text with
  | nil => exact .inl nofun
  | cons c text ih =>
    rcases ih with white | ⟨word, isWord, before, behind, rfl, apart, white⟩
    · by_cases space : isWhiteSpace c = true
      · exact .inl (List.forall_mem_cons.2 ⟨space, white⟩)
      · have single : IsWord [c] := ⟨List.cons_ne_nil c [], by simpa using space⟩
        exact .inr ⟨[c], single, [], text, rfl, nofun, white⟩
    · refine .inr ?_
      rcases before with _ | ⟨b, before⟩
      · by_cases space : isWhiteSpace c = true
        · exact ⟨word, isWord, [c], behind, rfl, by simpa using space, white⟩
        · have longer : IsWord (c :: word) := ⟨List.cons_ne_nil c word,
            List.forall_mem_cons.2 ⟨eq_false_of_ne_true space, isWord.2⟩⟩
          exact ⟨c :: word, longer, [], behind, rfl, nofun, white⟩
      · refine ⟨word, isWord, c :: b :: before, behind, rfl, ?_, white⟩
        rwa [List.getLast?_cons_cons]

/-- A text without words is white. -/
theorem words_eq_nil_iff : words text = [] ↔ ∀ c ∈ text, isWhiteSpace c = true := by
  refine ⟨fun none => ?_, words_of_white⟩
  rcases white_or_lastWord text with white | ⟨word, last⟩
  · exact white
  · obtain ⟨before, -, split⟩ := last.words_eq
    rw [none] at split
    exact absurd split.symm (List.append_ne_nil_of_right_ne_nil _ (List.cons_ne_nil word []))

/-- The last of the words is the last word of the text. -/
theorem getLast?_words_eq_some_iff : (words text).getLast? = some word ↔ LastWord word text := by
  have of_last {last : List Char} (isLast : LastWord last text) :
      (words text).getLast? = some last := by
    obtain ⟨before, -, split⟩ := isLast.words_eq
    rw [split, List.getLast?_concat]
  refine ⟨fun found => ?_, of_last⟩
  rcases white_or_lastWord text with white | ⟨last, isLast⟩
  · rw [words_of_white white] at found
    cases found
  · obtain rfl : last = word := Option.some.inj ((of_last isLast).symm.trans found)
    exact isLast

/-- Every word found is one: not empty, and without white space. -/
theorem isWord_of_mem_words (mem : word ∈ words text) : IsWord word := by
  induction h : text.length using Nat.strongRecOn generalizing text with
  | ind length ih =>
    subst h
    rcases white_or_lastWord text with white | ⟨last, isLast⟩
    · rw [words_of_white white] at mem
      cases mem
    · obtain ⟨before, shorter, split⟩ := isLast.words_eq
      rw [split, List.mem_append, List.mem_singleton] at mem
      rcases mem with earlier | rfl
      · exact ih before.length shorter earlier rfl
      · exact isLast.isWord

/-! ## What white space stands around -/

/-- Trimming takes white space off the start, and all of it. -/
theorem exists_trimStart (text : List Char) :
    ∃ before, text = before ++ trimStart text ∧ (∀ c ∈ before, isWhiteSpace c = true) ∧
      ∀ c ∈ (trimStart text).head?, isWhiteSpace c = false := by
  refine ⟨text.takeWhile isWhiteSpace, List.takeWhile_append_dropWhile.symm,
    List.all_eq_true.1 List.all_takeWhile, fun c starts => ?_⟩
  have stop := List.head?_dropWhile_not isWhiteSpace text
  rwa [← trimStart, Option.mem_def.1 starts] at stop

theorem exists_trimEnd (text : List Char) :
    ∃ behind, text = trimEnd text ++ behind ∧ (∀ c ∈ behind, isWhiteSpace c = true) ∧
      ∀ c ∈ (trimEnd text).getLast?, isWhiteSpace c = false := by
  obtain ⟨before, split, white, starts⟩ := exists_trimStart text.reverse
  refine ⟨before.reverse, ?_, fun c mem => white c (List.mem_reverse.1 mem), ?_⟩
  · rw [trimEnd, ← List.reverse_append, ← split, List.reverse_reverse]
  · rwa [trimEnd, List.getLast?_reverse]

theorem trimStart_white_append {before inner : List Char}
    (white : ∀ c ∈ before, isWhiteSpace c = true)
    (starts : ∀ c ∈ inner.head?, isWhiteSpace c = false) : trimStart (before ++ inner) = inner := by
  rw [trimStart, List.dropWhile_append_of_pos white]
  cases inner with
  | nil => rfl
  | cons c inner => exact List.dropWhile_cons_of_neg (by simp [starts c rfl])

theorem trimEnd_append_white {inner behind : List Char}
    (white : ∀ c ∈ behind, isWhiteSpace c = true)
    (ends : ∀ c ∈ inner.getLast?, isWhiteSpace c = false) : trimEnd (inner ++ behind) = inner := by
  rw [← List.head?_reverse] at ends
  rw [trimEnd, List.reverse_append,
    trimStart_white_append (fun c mem => white c (List.mem_reverse.1 mem)) ends,
    List.reverse_reverse]

theorem trimmed_trim (text : List Char) : Trimmed text (trim text) := by
  obtain ⟨before, split, white, starts⟩ := exists_trimStart text
  obtain ⟨behind, split', white', ends⟩ := exists_trimEnd (trimStart text)
  have starts' : ∀ c ∈ (trimEnd (trimStart text)).head?, isWhiteSpace c = false := by
    intro c first
    apply starts
    rw [split', List.head?_append, Option.mem_def.1 first]
    rfl
  exact ⟨⟨before, behind, split.trans (congrArg (before ++ ·) split'), white, white'⟩, starts', ends⟩

theorem Trimmed.trim_eq {inner : List Char} (trimmed : Trimmed text inner) : trim text = inner := by
  obtain ⟨⟨before, behind, rfl, white, white'⟩, starts, ends⟩ := trimmed
  cases inner with
  | nil =>
    have none : trimStart (before ++ behind) = [] := by
      rw [← List.append_nil (before ++ behind)]
      exact trimStart_white_append (List.forall_mem_append.2 ⟨white, white'⟩) nofun
    rw [List.nil_append, trim, none]
    rfl
  | cons c inner =>
    have starts' : ∀ first ∈ (c :: inner ++ behind).head?, isWhiteSpace first = false := starts
    rw [trim, trimStart_white_append white starts', trimEnd_append_white white' ends]

/-- Trimming finds the one inner text that starts and ends without white space. -/
theorem trim_eq_iff {inner : List Char} : trim text = inner ↔ Trimmed text inner :=
  ⟨fun same => same ▸ trimmed_trim text, Trimmed.trim_eq⟩

/-- Trimming a text leaves its words. -/
theorem words_trim (text : List Char) : words (trim text) = words text := by
  obtain ⟨before, behind, split, white, white'⟩ := (trimmed_trim text).placed
  conv_rhs => rw [split, words_white_append white, words_append_white _ white']

end CodeListing.Text
