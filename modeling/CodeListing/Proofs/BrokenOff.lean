import CodeListing.Line.History
import CodeListing.Proofs.History

/-!
# What a line that is broken off leaves behind

`Progress.pass_brokenOff` says when a line is broken off, what it leaves to the block, and how the
next line goes on from there.  What is carried on behind directives can be handed on to further ones
(`Progress.heeding_append`), so it does not matter whether they stand on the same line.  The note on
a line does not have this property, and there the two ways part.
-/

namespace CodeListing

namespace BrokenOff

/-- Words are broken off at the first that is no directive, or else all of them are directives. -/
theorem exists_or_read (words : List String) :
    (∃ ahead directives word, BrokenOff words ahead directives word) ∨
      ∃ directives : List Directive, words.map Directive.ofText? = directives.map some := by
  induction words with
  | nil => exact .inr ⟨[], rfl⟩
  | cons first words ih =>
    cases read : Directive.ofText? first with
    | none => exact .inl ⟨[], [], first, ⟨words, rfl⟩, rfl, read⟩
    | some directive =>
      rcases ih with ⟨ahead, directives, word, ⟨others, split⟩, known, unknown⟩ | ⟨directives, known⟩
      · refine .inl ⟨first :: ahead, directive :: directives, word, ⟨others, ?_⟩, ?_, unknown⟩
        · rw [split, List.cons_append]
        · rw [List.map_cons, List.map_cons, read, known]
      · refine .inr ⟨directive :: directives, ?_⟩
        rw [List.map_cons, List.map_cons, read, known]

/-- The word that breaks the line off is one of its words, and no directive. -/
theorem mem {words ahead : List String} {directives : List Directive} {word : String}
    (broken : BrokenOff words ahead directives word) :
    word ∈ words ∧ Directive.ofText? word = none := by
  obtain ⟨⟨others, rfl⟩, -, unknown⟩ := broken
  exact ⟨List.mem_append_right ahead List.mem_cons_self, unknown⟩

/-- Directives in front of words that are broken off are obeyed with the words ahead. -/
theorem append {words ahead : List String} {directives : List Directive} {word : String}
    (broken : BrokenOff words ahead directives word) {front : List String}
    {before : List Directive} (read : front.map Directive.ofText? = before.map some) :
    BrokenOff (front ++ words) (front ++ ahead) (before ++ directives) word := by
  obtain ⟨⟨others, split⟩, known, unknown⟩ := broken
  refine ⟨⟨others, ?_⟩, ?_, unknown⟩
  · rw [split, List.append_assoc]
  · rw [List.map_append, List.map_append, read, known]

end BrokenOff

namespace Progress

/-! ## One line -/

/-- Words go on from what the words in front of them have left, unless these are broken off. -/
theorem obeyWords_append (p : Progress) (note : LineNote) (ahead words : List String) :
    p.obeyWords note (ahead ++ words) =
      match p.obeyWords note ahead with
      | (p, .error word) => (p, .error word)
      | (p, .ok note) => p.obeyWords note words := by
  induction ahead generalizing p note with
  | nil => rfl
  | cons word ahead ih =>
    cases read : Directive.ofText? word with
    | none => simp [obeyWords, read]
    | some directive => simpa [obeyWords, read] using ih _ _

/-- Obeying directives one by one leaves the state that heeding them all at once gives; by induction
on the list. -/
theorem obeyAll_heeding (p : Progress) (note : LineNote) (directives : List Directive) :
    (p.obeyAll note directives).1 = p.heeding directives := by
  rw [obeyAll_eq]
  rfl

/-- A line that is broken off is not counted. -/
theorem pass_of_brokenOff (p : Progress) (index : Nat) (mark : LineMark)
    {words ahead : List String} {directives : List Directive} {word : String}
    (broken : BrokenOff words ahead directives word) :
    p.pass index mark words = (p.heeding directives, .error (.directive word index)) := by
  obtain ⟨⟨others, rfl⟩, known, unknown⟩ := broken
  rw [pass, obeyWords_append, p.obeyWords_read _ known, obeyAll_heeding]
  simp only [obeyWords, unknown]

/-- A line of directives is counted. -/
theorem pass_of_read (p : Progress) (index : Nat) (mark : LineMark) {words : List String}
    {directives : List Directive} (known : words.map Directive.ofText? = directives.map some) :
    p.pass index mark words =
      (let left := p.heeding directives
       ({ left with next := left.next.bind successor? },
        .ok { mark := mark.afterAll directives
              focused := directives.contains .focus
              number := if left.numbered then left.next else none
              skipped := NumberRange.gaps p.next (Directive.targets directives) })) := by
  rw [pass, p.obeyWords_read _ known, obeyAll_heeding, obeyAll_eq]
  simp [LineMark.afterAll]

/-! ## Two lines -/

/-- What is carried on behind directives is all that further ones need of them. -/
theorem heeding_append (p : Progress) (ahead directives : List Directive) :
    p.heeding (ahead ++ directives) = (p.heeding ahead).heeding directives := by
  simp only [heeding, Directive.switches_append, Directive.targets_append, List.getLast?_append,
    Option.getD_or, Option.or_assoc, List.contains_append, Bool.or_assoc]

/-- A line goes on from directives that no line was counted for as if they stood in front of its
words. -/
theorem pass_heeding (p : Progress) (index : Nat) (mark : LineMark) {ahead : List String}
    {directives : List Directive} (read : ahead.map Directive.ofText? = directives.map some)
    (words : List String) :
    let joined := p.pass index mark (ahead ++ words)
    let result := (p.heeding directives).pass index mark words
    result.1 = joined.1 ∧
      LineNote.Resumes mark p.next directives (words.filterMap Directive.ofText?) joined.2
        result.2 := by
  intro joined result
  rcases BrokenOff.exists_or_read words with ⟨inner, own, word, broken⟩ | ⟨own, known⟩
  · have here := (p.heeding directives).pass_of_brokenOff index mark broken
    have whole := p.pass_of_brokenOff index mark (broken.append read)
    rw [heeding_append] at whole
    simp only [joined, result, here, whole]
    exact ⟨trivial, .failed _⟩
  · have here := (p.heeding directives).pass_of_read index mark known
    have both : (ahead ++ words).map Directive.ofText? = (directives ++ own).map some := by
      rw [List.map_append, List.map_append, read, known]
    have whole := p.pass_of_read index mark both
    have same : words.filterMap Directive.ofText? = own := (WordedLine.known_of_read mark known).2
    rw [heeding_append] at whole
    simp only [joined, result, here, whole, same]
    refine ⟨trivial, .passed ⟨rfl, rfl, rfl, rfl, ?_, ?_⟩⟩
    · exact List.contains_append
    · rw [Directive.targets_append, NumberRange.gaps_append]
      rfl

/-- A line that fails is broken off. -/
theorem pass_eq_error_iff (p : Progress) (index : Nat) (mark : LineMark) (words : List String)
    (e : Error) :
    (p.pass index mark words).2 = .error e ↔
      ∃ ahead directives word, BrokenOff words ahead directives word ∧
        e = .directive word index := by
  constructor
  · intro failed
    rcases BrokenOff.exists_or_read words with ⟨ahead, directives, word, broken⟩ | ⟨own, known⟩
    · rw [p.pass_of_brokenOff index mark broken] at failed
      exact ⟨ahead, directives, word, broken, (Except.error.inj failed).symm⟩
    · rw [p.pass_of_read index mark known] at failed
      cases failed
  · rintro ⟨ahead, directives, word, broken, rfl⟩
    rw [p.pass_of_brokenOff index mark broken]

/-- A line fails if any of its words is no directive. -/
theorem exists_error_iff (p : Progress) (index : Nat) (mark : LineMark) (words : List String) :
    (∃ e, (p.pass index mark words).2 = .error e) ↔
      ∃ word ∈ words, Directive.ofText? word = none := by
  constructor
  · rintro ⟨e, failed⟩
    obtain ⟨ahead, directives, word, broken, -⟩ := (p.pass_eq_error_iff index mark words e).1 failed
    exact ⟨word, broken.mem⟩
  · rintro ⟨word, member, unknown⟩
    rcases BrokenOff.exists_or_read words with ⟨ahead, directives, first, broken⟩ | ⟨own, known⟩
    · exact ⟨_, (p.pass_eq_error_iff index mark words _).2 ⟨ahead, directives, first, broken, rfl⟩⟩
    · have read : Directive.ofText? word ∈ own.map some := known ▸ List.mem_map_of_mem member
      simp [unknown] at read

/-- **A line that is broken off.**  A line fails exactly if one of its words is no directive.  The
error names the first such word and the place of the line.  The block keeps what the words in front
of that one have done, and the line is not counted.  Whatever line is passed next, it leaves the
block and ends as it would with these words in front of its own, apart from what they would have
said about the line. -/
theorem pass_brokenOff (p : Progress) (index : Nat) (mark : LineMark) (words : List String) :
    ((∃ e, (p.pass index mark words).2 = .error e) ↔
      ∃ word ∈ words, Directive.ofText? word = none) ∧
    (∀ e, (p.pass index mark words).2 = .error e ↔
      ∃ ahead directives word, BrokenOff words ahead directives word ∧
        e = .directive word index) ∧
    ∀ ahead directives word, BrokenOff words ahead directives word →
      p.pass index mark words = (p.heeding directives, .error (.directive word index)) ∧
        ∀ (place : Nat) (line : WordedLine),
          let joined := p.pass place line.mark (ahead ++ line.words)
          let result := (p.pass index mark words).1.pass place line.mark line.words
          result.1 = joined.1 ∧
            LineNote.Resumes line.mark p.next directives line.directives joined.2 result.2 := by
  refine ⟨p.exists_error_iff index mark words, p.pass_eq_error_iff index mark words, ?_⟩
  intro ahead directives word broken
  have failed := p.pass_of_brokenOff index mark broken
  refine ⟨failed, fun place line => ?_⟩
  rw [failed]
  exact p.pass_heeding place line.mark broken.known line.words

/-- A line with two jumps in front of its unknown word: the line behind it counts on from the second
jump, and of all the gaps it notes the last one only. -/
theorem pass_brokenOff_jumps :
    let p := start (.from 3)
    let ahead := ["focus", "line-numbers=7", "Line-Numbers=05", "error"]
    let words := ahead ++ ["bogus", "line-numbers=90"]
    BrokenOff words ahead [.focus, .numbered (some 7), .numbered (some 5), .error] "bogus" ∧
      p.pass 4 .highlighted words =
        (⟨true, some 5, true, true⟩, .error (.directive "bogus" 4)) ∧
      let result := (p.pass 4 .highlighted words).1.pass 5 .plain ["line-numbers=8"]
      result.1 = ⟨true, some 9, true, true⟩ ∧ ∃ note, result.2 = .ok note ∧
        note.mark = .plain ∧ note.focused = false ∧ note.number = some 8 ∧
          note.skipped = [⟨5, 7, by decide⟩] := by
  intro p ahead words
  have broken : BrokenOff words ahead [.focus, .numbered (some 7), .numbered (some 5), .error]
      "bogus" := ⟨⟨["line-numbers=90"], rfl⟩, by decide +kernel, by decide +kernel⟩
  obtain ⟨failed, next⟩ := (pass_brokenOff p 4 .highlighted words).2.2 _ _ _ broken
  obtain ⟨left, resumes⟩ := next 5 ⟨.plain, ["line-numbers=8"]⟩
  have joined : p.pass 5 .plain (ahead ++ ["line-numbers=8"]) =
      (⟨true, some 9, true, true⟩,
        .ok ⟨.error, true, some 8, [⟨3, 6, by decide⟩, ⟨5, 7, by decide⟩]⟩) := by decide +kernel
  rw [joined] at left resumes
  refine ⟨broken, failed, left, ?_⟩
  generalize ((p.pass 4 .highlighted words).1.pass 5 .plain ["line-numbers=8"]).2 = result
    at resumes
  cases resumes with
  | @passed _ note without =>
    have skipped := without.skipped
    exact ⟨note, rfl, without.own_mark, without.own_focus, without.number,
      (List.cons.inj skipped).2.symm⟩

end Progress

end CodeListing
