import CodeListing.CodeBlock
import CodeListing.Text.Lines

/-!
# The lines of a text

However a text is read as lines with endings, `withFeeds` is what is left of it once the endings are
unified (`unifyLineEndings_ended`), and of this the lines of a block are a reading of their own.
`CodeBlock.lines_fenced` says that they have no endings in them and what becomes of the text if they
are joined; `CodeBlock.lines_closed` goes the other way, from lines to a text and back.

A text that consists of one ending counts as empty, though the line in front of that ending is
there (`lines_eq_of_ended`).  In joined lines this cannot be seen, but it keeps `lines_closed` from
giving a single blank line back.
-/

namespace CodeListing

namespace Text

/-! ## Line endings -/

theorem unifyLineEndings_cons {c : Char} (other : c ≠ '\r') (text : List Char) :
    unifyLineEndings (c :: text) = c :: unifyLineEndings text := by
  simp [unifyLineEndings, other]

/-- What holds no line ending is left as it is. -/
theorem unifyLineEndings_append {line : List Char} (unbroken : Unbroken line) (text : List Char) :
    unifyLineEndings (line ++ text) = line ++ unifyLineEndings text := by
  induction line with
  | nil => rfl
  | cons c line ih =>
    obtain ⟨noReturn, noFeed⟩ := unbroken
    rw [List.cons_append, unifyLineEndings_cons (List.ne_of_not_mem_cons noReturn).symm,
      ih ⟨List.not_mem_of_not_mem_cons noReturn, List.not_mem_of_not_mem_cons noFeed⟩,
      List.cons_append]

/-- Each of the three endings becomes one `\n`, if its characters are not those of a longer one. -/
theorem unifyLineEndings_ending {ending : LineEnding} {text : List Char}
    (apart : ending = .cr → text.head? ≠ some '\n') :
    unifyLineEndings (ending.text.toList ++ text) = '\n' :: unifyLineEndings text := by
  cases ending with
  | lf => exact unifyLineEndings_cons (by decide) text
  | crlf => simp [LineEnding.text, unifyLineEndings]
  | cr =>
    cases text with
    | nil => simp [LineEnding.text, unifyLineEndings]
    | cons c text =>
      have other : c ≠ '\n' := fun same => apart rfl (by rw [same, List.head?_cons])
      simp [LineEnding.text, unifyLineEndings, other]

/-- Unifying the endings of a text is writing its lines with `\n` behind each. -/
theorem unifyLineEndings_ended {text rest : List Char} {ended : List (List Char × LineEnding)}
    (read : EndedLines text ended rest) :
    unifyLineEndings text = withFeeds ended rest := by
  induction read with
  | rest unbroken =>
    simpa [withFeeds, unifyLineEndings] using unifyLineEndings_append unbroken []
  | line unbroken apart _ ih =>
    rw [unifyLineEndings_append unbroken, unifyLineEndings_ending apart, ih, withFeeds, withFeeds,
      List.flatMap_cons, List.append_assoc, List.append_assoc, List.singleton_append]

/-! ## Reading lines -/

theorem unbroken_cons {c : Char} {text : List Char} :
    Unbroken (c :: text) ↔ (c ≠ '\r' ∧ c ≠ '\n') ∧ Unbroken text := by
  simp only [Unbroken, List.mem_cons, not_or, ne_eq, eq_comm (b := c)]
  exact and_and_and_comm

theorem EndedLines.cons {c : Char} {text rest : List Char} {ended : List (List Char × LineEnding)}
    (other : c ≠ '\r' ∧ c ≠ '\n') (read : EndedLines text ended rest) :
    ∃ ended rest, EndedLines (c :: text) ended rest := by
  cases read with
  | rest unbroken => exact ⟨_, _, .rest (unbroken_cons.2 ⟨other, unbroken⟩)⟩
  | line unbroken apart others => exact ⟨_, _, .line (unbroken_cons.2 ⟨other, unbroken⟩) apart others⟩

/-- Every text can be read as lines. -/
theorem exists_endedLines (text : List Char) : ∃ ended rest, EndedLines text ended rest := by
  have empty : Unbroken [] := ⟨List.not_mem_nil, List.not_mem_nil⟩
  induction text using unifyLineEndings.induct with
  | case1 text ih =>
    obtain ⟨ended, rest, read⟩ := ih
    exact ⟨_, _, @EndedLines.line [] text rest .crlf ended empty nofun read⟩
  | case2 text apart ih =>
    obtain ⟨ended, rest, read⟩ := ih
    refine ⟨_, _, @EndedLines.line [] text rest .cr ended empty (fun _ feed => ?_) read⟩
    obtain ⟨others, rfl⟩ := List.head?_eq_some_iff.1 feed
    exact apart others rfl
  | case3 c text _ other ih =>
    obtain ⟨ended, rest, read⟩ := ih
    by_cases feed : c = '\n'
    · subst feed
      exact ⟨_, _, @EndedLines.line [] text rest .lf ended empty nofun read⟩
    · exact read.cons ⟨other, feed⟩
  | case4 => exact ⟨[], [], .rest empty⟩

/-! ## Replacement -/

/-- Replacing a single character goes through the characters one by one. -/
theorem replaceAll_singleton (a b : Char) (text : List Char) :
    replaceAll [a] [b] text = text.map fun c => if c = a then b else c := by
  induction text with
  | nil => simp [replaceAll]
  | cons c text ih =>
    by_cases same : c = a
    · simp [replaceAll, same, ih]
    · have other : a ≠ c := fun eq => same eq.symm
      simp [replaceAll, same, other, ih]

/-- One replacement on top of the other is one reading from left to right. -/
theorem replaceLineEndings_eq (text : List Char) :
    replaceLineEndings text = unifyLineEndings text := by
  rw [replaceLineEndings, replaceAll_singleton]
  induction text using unifyLineEndings.induct with
  | case1 text ih => simp [replaceAll, unifyLineEndings, ih]
  | case2 text apart ih =>
    have lone : ['\n'].isPrefixOf text = false := by
      refine Bool.eq_false_iff.2 fun starts => ?_
      obtain ⟨others, rfl⟩ := List.isPrefixOf_iff_prefix.1 starts
      exact apart others rfl
    simp [replaceAll, unifyLineEndings, ih, lone]
  | case3 c text _ other ih =>
    have apart : c ≠ '\r' := other
    simp [replaceAll, unifyLineEndings, ih, apart, apart.symm]
  | case4 => simp [replaceAll, unifyLineEndings]

/-- Cutting behind two replacements gives the same lines as one pass. -/
theorem linesByReplacing_eq (content : List Char) : linesByReplacing content = lines content := by
  rw [linesByReplacing, lines, replaceLineEndings_eq]
  cases dropFinalNewline (unifyLineEndings content) <;> rfl

/-! ## Joining lines -/

/-- Lines that are closed by `\n` one by one, and the rest behind them. -/
theorem withFeeds_eq (ended : List (List Char × LineEnding)) (rest : List Char) :
    withFeeds ended rest = ['\n'].intercalate (ended.map (·.1) ++ [rest]) := by
  induction ended with
  | nil => simp [withFeeds]
  | cons line ended ih =>
    rw [withFeeds] at ih ⊢
    rw [List.map_cons, List.cons_append, List.intercalate_cons_of_ne_nil (by simp), ← ih,
      List.flatMap_cons, List.append_assoc]

/-- Joined lines are empty if there are none, or a single empty one. -/
theorem intercalate_eq_nil_iff {lines : List (List Char)} :
    ['\n'].intercalate lines = [] ↔ lines = [] ∨ lines = [[]] := by
  match lines with
  | [] => simp
  | [line] => simp
  | line :: line' :: lines => simp [List.intercalate_cons_cons]

/-- Of lines with an ending each, the last loses its ending. -/
theorem intercalate_allLines (ended : List (List Char × LineEnding)) (rest : List Char) :
    ['\n'].intercalate (allLines ended rest) ++
        (if rest = [] ∧ ended ≠ [] then ['\n'] else []) = withFeeds ended rest := by
  by_cases closed : rest = []
  · subst closed
    rcases List.eq_nil_or_concat ended with rfl | ⟨others, ⟨line, ending⟩, rfl⟩
    · rfl
    · have front := withFeeds_eq others line
      simp [allLines, withFeeds] at front ⊢
      rw [← front, List.append_assoc]
  · simp [allLines, closed, withFeeds_eq]

/-- Without the ending that closes it, the text is its lines with `\n` between them. -/
theorem dropFinalNewline_withFeeds (ended : List (List Char × LineEnding)) {rest : List Char}
    (unbroken : Unbroken rest) :
    dropFinalNewline (withFeeds ended rest) = ['\n'].intercalate (allLines ended rest) := by
  have joined := intercalate_allLines ended rest
  by_cases closed : rest = [] ∧ ended ≠ []
  · rw [if_pos closed] at joined
    rw [dropFinalNewline, ← joined, List.getLast?_concat, if_pos rfl, List.dropLast_concat]
  · rw [if_neg closed, List.append_nil] at joined
    rw [joined, dropFinalNewline, if_neg]
    intro last
    rw [withFeeds, List.getLast?_append, Option.or_eq_some_iff] at last
    rcases last with last | ⟨none, last⟩
    · exact unbroken.2 (List.mem_of_getLast? last)
    · refine closed ⟨List.getLast?_eq_none_iff.1 none, ?_⟩
      rintro rfl
      cases last

/-- No line holds the end of another one. -/
theorem EndedLines.unbroken {text rest : List Char} {ended : List (List Char × LineEnding)}
    (read : EndedLines text ended rest) :
    Unbroken rest ∧ ∀ line ∈ allLines ended rest, Unbroken line := by
  induction read with
  | @rest rest unbroken =>
    refine ⟨unbroken, fun line member => ?_⟩
    have same : line = rest := by
      by_cases empty : rest = [] <;> simp_all [allLines]
    exact same ▸ unbroken
  | line unbroken _ _ ih =>
    refine ⟨ih.1, fun line member => ?_⟩
    rcases List.mem_cons.1 member with rfl | member
    · exact unbroken
    · exact ih.2 line member

/-- The lines that are read are the lines there are, but a single line without a character counts as
none. -/
theorem lines_eq_of_ended {content rest : List Char} {ended : List (List Char × LineEnding)}
    (read : EndedLines content ended rest) :
    lines content = if allLines ended rest = [[]] then [] else allLines ended rest := by
  obtain ⟨last, unbroken⟩ := read.unbroken
  rw [← linesByReplacing_eq, linesByReplacing, replaceLineEndings_eq, unifyLineEndings_ended read,
    dropFinalNewline_withFeeds ended last]
  generalize allLines ended rest = all at unbroken
  by_cases blank : all = [[]]
  · rw [blank]
    rfl
  · rw [if_neg blank]
    by_cases none : all = []
    · rw [none]
      rfl
    · have some : ['\n'].intercalate all ≠ [] := fun empty =>
        (intercalate_eq_nil_iff.1 empty).elim none blank
      rw [if_neg (by simpa using some),
        List.splitOn_intercalate '\n' (fun line member => (unbroken line member).2) none]

/-- The lines of a text hold no line ends. -/
theorem unbroken_of_mem_lines {content line : List Char} (member : line ∈ lines content) :
    Unbroken line := by
  obtain ⟨ended, rest, read⟩ := exists_endedLines content
  rw [lines_eq_of_ended read] at member
  split at member
  · cases member
  · exact read.unbroken.2 line member

/-- Where the lines are missed altogether, it was a single empty one, which joins to nothing as
well. -/
theorem EndedLines.intercalate_lines {content rest : List Char}
    {ended : List (List Char × LineEnding)} (read : EndedLines content ended rest) :
    ['\n'].intercalate (lines content) = ['\n'].intercalate (allLines ended rest) := by
  rw [lines_eq_of_ended read]
  split
  · next blank => rw [blank, List.intercalate_nil, List.intercalate_singleton]
  · rfl

/-- Lines that all have the same ending. -/
theorem endedLines_flatMap (ending : LineEnding) {lines : List (List Char)}
    (unbroken : ∀ line ∈ lines, Unbroken line) :
    EndedLines (lines.flatMap (· ++ ending.text.toList)) (lines.map (·, ending)) [] := by
  induction lines with
  | nil => exact .rest ⟨List.not_mem_nil, List.not_mem_nil⟩
  | cons line lines ih =>
    obtain ⟨here, others⟩ := List.forall_mem_cons.1 unbroken
    rw [List.flatMap_cons, List.map_cons, List.append_assoc]
    refine .line here ?_ (ih others)
    rintro rfl
    -- the next line begins with one of its own characters, or with the `\r` that ends it
    cases lines with
    | nil => simp
    | cons next lines =>
      cases next with
      | nil => simp [LineEnding.text]
      | cons c next =>
        have other : c ≠ '\n' := (unbroken_cons.1 (others (c :: next) List.mem_cons_self)).1.2
        simpa using other

end Text

namespace CodeBlock

/-- **Line endings are unified, and the text stays.**  No line of a block has a line ending in it.
However the text of the block is read as lines with endings, `\n` between the lines of the block and
one behind them, if the text has one there, give the text back with `\n` for each of its endings.
The lines are also those that two replacements on the whole text bring to light. -/
theorem lines_fenced (infoLine content : String) :
    let lines := (fenced infoLine content).lines
    (∀ line ∈ lines, Text.Unbroken line.toList) ∧
      (∃ ended rest, Text.EndedLines content.toList ended rest) ∧
      (∀ ended rest, Text.EndedLines content.toList ended rest →
        ("\n".intercalate lines).toList ++ (if rest = [] ∧ ended ≠ [] then ['\n'] else []) =
          Text.withFeeds ended rest) ∧
      lines = (Text.linesByReplacing content.toList).map String.ofList := by
  intro lines
  have same : lines = (Text.lines content.toList).map String.ofList := rfl
  obtain ⟨ended, rest, read⟩ := Text.exists_endedLines content.toList
  refine ⟨fun line member => ?_, ⟨ended, rest, read⟩, fun ended rest read => ?_, ?_⟩
  · rw [same] at member
    obtain ⟨cs, among, rfl⟩ := List.mem_map.1 member
    rw [String.toList_ofList]
    exact Text.unbroken_of_mem_lines among
  · rw [← Text.intercalate_allLines, ← read.intercalate_lines, same, String.toList_intercalate]
    simp [Function.comp_def]
  · rw [Text.linesByReplacing_eq, same]

/-- A lone `\r` in front of `\r\n`, and one behind a `\n`. -/
theorem lines_fenced_mixed :
    let content := "a\r\r\n\n\rb\n"
    let ended := [(['a'], .cr), ([], .crlf), ([], .lf), ([], .cr), (['b'], .lf)]
    Text.EndedLines content.toList ended [] ∧
      ("\n".intercalate (fenced "c" content).lines).toList = "a\n\n\n\nb".toList := by
  intro content ended
  have blank : Text.Unbroken [] := by decide
  have last := @Text.EndedLines.line ['b'] [] [] .lf [] (by decide) nofun (.rest blank)
  have lone := @Text.EndedLines.line [] _ _ .cr _ blank (by decide) last
  have pair := @Text.EndedLines.line [] _ _ .crlf _ blank nofun
    (@Text.EndedLines.line [] _ _ .lf _ blank nofun lone)
  have read : Text.EndedLines content.toList ended [] := by
    have first := @Text.EndedLines.line ['a'] _ _ .cr _ (by decide) (by decide) pair
    simpa [content, ended, Text.LineEnding.text] using first
  have joined := (lines_fenced "c" content).2.2.1 ended [] read
  exact ⟨read, List.append_cancel_right (joined.trans (by decide))⟩

/-- **Lines are given back.**  Lines that are closed by one and the same line ending are the lines of
the block, fenced or indented, in all cases but one: if there is a single line and it is blank, the
block has no line. -/
theorem lines_closed (infoLine : String) (ending : Text.LineEnding) (lines : List String)
    (unbroken : ∀ line ∈ lines, Text.Unbroken line.toList) :
    let content := String.join (lines.map (· ++ ending.text))
    let kept := if lines = [""] then [] else lines
    (fenced infoLine content).lines = kept ∧ (indented content).lines = kept := by
  intro content kept
  have text : content.toList = (lines.map String.toList).flatMap (· ++ ending.text.toList) := by
    simp [content, String.toList_join, List.flatMap_map]
  have unbroken' : ∀ line ∈ lines.map String.toList, Text.Unbroken line :=
    List.forall_mem_map.2 unbroken
  have read := Text.endedLines_flatMap ending unbroken'
  have all : Text.allLines ((lines.map String.toList).map (·, ending)) [] =
      lines.map String.toList := by
    simp [Text.allLines, Function.comp_def]
  have blank : lines.map String.toList = [[]] ↔ lines = [""] := by simp
  have same : linesOf content = if lines = [""] then [] else lines := by
    rw [linesOf, text, Text.lines_eq_of_ended read, all]
    by_cases one : lines = [""]
    · rw [if_pos (blank.2 one), if_pos one, List.map_nil]
    · rw [if_neg (mt blank.1 one), if_neg one]
      simp [Function.comp_def]
  exact ⟨same, same⟩

/-- Blank lines in front, in between and at the end. -/
theorem lines_closed_blanks :
    let lines := ["", "x", "", ""]
    (∀ line ∈ lines, Text.Unbroken line.toList) ∧
      (fenced "c" "\r\nx\r\n\r\n\r\n").lines = lines ∧
      (indented "\r\nx\r\n\r\n\r\n").lines = lines := by
  intro lines
  have unbroken : ∀ line ∈ lines, Text.Unbroken line.toList := by decide
  exact ⟨unbroken, lines_closed "c" .crlf lines unbroken⟩

/-- One blank line is lost, where two are kept. -/
theorem lines_of_blank :
    Text.Unbroken "".toList ∧ String.join ([""].map (· ++ Text.LineEnding.lf.text)) = "\n" ∧
      (fenced "c" "\n").lines = [] ∧ (indented "\n").lines = [] ∧
      (fenced "c" "\n\n").lines = ["", ""] := by
  decide +kernel

end CodeBlock

end CodeListing
