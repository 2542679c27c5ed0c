import Mathlib.Data.List.Basic
import CodeListing.CodeBlock
import CodeListing.Proofs.Highlighter
import CodeListing.Proofs.Pattern
import CodeListing.Proofs.Words

/-!
# White space on a fence

`Highlighter.fence?_fenced` says which white space on a fence is still there in the info string that
is read.  None is if the words behind the first one are parted by blanks; in front of them and at
the ends of the line any white space does.
-/

namespace CodeListing

/-! ## Taking out white space -/

namespace Text

variable {text : List Char}

theorem unspaced_eq_nil (white : ∀ c ∈ text, isWhiteSpace c = true) : unspaced text = [] := by
  rw [unspaced, List.filter_eq_nil_iff]
  intro c mem
  simp [white c mem]

theorem unspaced_append (before behind : List Char) :
    unspaced (before ++ behind) = unspaced before ++ unspaced behind := List.filter_append ..

theorem unspaced_unspaced (text : List Char) : Unspaced (unspaced text) := by
  intro c mem
  simpa using (List.mem_filter.1 mem).2

/-- No white space is in a text that none is found in. -/
theorem unspaced_iff_filter : Unspaced text ↔ text.filter isWhiteSpace = [] := by
  simp only [List.filter_eq_nil_iff, Unspaced, Bool.not_eq_true]

/-- Where white space is blanks, taking out the blanks takes it all out. -/
theorem filter_blank (blanks : SpacedByBlanks text) : text.filter (· != ' ') = unspaced text := by
  refine List.filter_congr fun c mem => ?_
  rcases blanks c mem with other | rfl
  · rw [other, Bool.not_false, bne_iff_ne]
    rintro rfl
    cases other
  · rfl

/-- Where there is no white space but blanks, none is left beside them. -/
theorem spacedByBlanks_iff_filter :
    SpacedByBlanks text ↔ text.filter (fun c => isWhiteSpace c && c != ' ') = [] := by
  simp only [List.filter_eq_nil_iff, SpacedByBlanks, Bool.and_eq_true, bne_iff_ne, not_and_or,
    Bool.not_eq_true, not_not]

end Text

/-! ## First words and others -/

namespace FenceLine

variable {text first others : List Char}

/-- The white space around the words on a fence is all that is not theirs. -/
theorem unspaced_eq (line : FenceLine text first others) :
    Text.unspaced text = Text.unspaced (first ++ others) := by
  obtain ⟨before, gap, behind, rfl, white, -⟩ := line.placed
  obtain ⟨front, white⟩ := List.forall_mem_append.1 white
  obtain ⟨between, back⟩ := List.forall_mem_append.1 white
  simp only [Text.unspaced_append, Text.unspaced_eq_nil front, Text.unspaced_eq_nil between,
    Text.unspaced_eq_nil back, List.nil_append, List.append_nil]

/-- A text goes on behind its first word with white space, if it goes on. -/
theorem exists_span (text : List Char) : ∃ first rest, text = first ++ rest ∧
    Text.Unspaced first ∧ ∀ c ∈ rest.head?, Text.isWhiteSpace c = true := by
  refine ⟨_, _, (List.takeWhile_append_dropWhile (p := (!Text.isWhiteSpace ·))).symm, ?_, ?_⟩
  · intro c mem
    simpa using List.all_eq_true.1 List.all_takeWhile c mem
  · intro c starts
    have stop := List.head?_dropWhile_not (!Text.isWhiteSpace ·) text
    rw [Option.mem_def.1 starts] at stop
    simpa using stop

/-- Every text has a first word and others behind it, if they may be empty. -/
theorem exists_of_text (text : List Char) : ∃ first others, FenceLine text first others := by
  obtain ⟨⟨before, behind, split, front, back⟩, starts, -⟩ := Text.trimmed_trim text
  obtain ⟨first, rest, parts, word, goesOn⟩ := exists_span (Text.trim text)
  obtain ⟨⟨gap, behind', split', between, back'⟩, starts', ends'⟩ := Text.trimmed_trim rest
  have apart : Text.trim rest ≠ [] → gap ≠ [] := by
    rintro some rfl
    obtain ⟨c, others, same⟩ := List.exists_cons_of_ne_nil some
    rw [same] at split' starts'
    have white := goesOn c (by rw [split']; rfl)
    rw [starts' c rfl] at white
    cases white
  have leads : Text.trim rest ≠ [] → first ≠ [] := by
    rintro some rfl
    rcases rest with _ | ⟨c, rest⟩
    · exact some rfl
    · have white := goesOn c rfl
      rw [starts c (by rw [parts]; rfl)] at white
      cases white
  refine ⟨first, Text.trim rest, ⟨before, gap, behind' ++ behind, ?_, ?_, apart⟩, word, leads,
    starts', ends'⟩
  · rw [split, parts]
    conv_lhs => rw [split']
    simp only [List.append_assoc]
  · simp only [List.forall_mem_append]
    exact ⟨front, between, back', back⟩

/-- Between its ends, the line is the first word and a rest that does not go on with the word. -/
theorem exists_rest (line : FenceLine text first others) :
    ∃ rest, Text.Trimmed text (first ++ rest) ∧
      ¬ Pattern.BeginsWith ((!Text.isWhiteSpace ·) · = true) rest ∧ Text.trim rest = others := by
  obtain ⟨before, gap, behind, split, white, apart⟩ := line.placed
  obtain ⟨front, white⟩ := List.forall_mem_append.1 white
  obtain ⟨between, back⟩ := List.forall_mem_append.1 white
  -- the gap is part of what is between the ends only if there is something behind it
  by_cases none : others = []
  · subst none
    refine ⟨[], ⟨⟨before, gap ++ behind, by simpa using split, front, white⟩, ?_, ?_⟩, id, rfl⟩
    · intro c starts
      rw [List.append_nil] at starts
      exact line.word c (List.mem_of_head? starts)
    · intro c ends
      rw [List.append_nil] at ends
      exact line.word c (List.mem_of_getLast? ends)
  · obtain ⟨g, gap', rfl⟩ := List.exists_cons_of_ne_nil (apart none)
    obtain ⟨f, first', rfl⟩ := List.exists_cons_of_ne_nil (line.leads none)
    have rest : Text.Trimmed (g :: gap' ++ others) others :=
      ⟨⟨g :: gap', [], by rw [List.append_nil], between, nofun⟩, line.starts, line.ends⟩
    refine ⟨g :: gap' ++ others, ⟨⟨before, behind, by simpa using split, front, back⟩, ?_, ?_⟩,
      ?_, rest.trim_eq⟩
    · intro c starts
      obtain rfl := Option.some.inj starts
      exact line.word _ List.mem_cons_self
    · intro c ends
      rw [← List.append_assoc, List.getLast?_append_of_ne_nil _ none] at ends
      exact line.ends c ends
    · simp [between g List.mem_cons_self]

/-- What a block takes from its line. -/
theorem span_trim (line : FenceLine text first others) :
    ∃ rest, (Text.trim text).span (!Text.isWhiteSpace ·) = (first, rest) ∧
      Text.trim rest = others := by
  obtain ⟨rest, trimmed, stop, same⟩ := line.exists_rest
  have inside : ∀ c ∈ first, (!Text.isWhiteSpace c) = true := by
    intro c mem
    rw [line.word c mem]
    rfl
  obtain ⟨taken, left⟩ := Pattern.run_append inside stop
  refine ⟨rest, ?_, same⟩
  rw [trimmed.trim_eq, List.span_eq_takeWhile_dropWhile, taken, left]

end FenceLine

/-! ## Info strings -/

namespace CodeBlock

variable {infoLine : String} {first others : List Char}

/-- A text that is empty is lost without a loss. -/
theorem text_nonEmpty? (cs : List Char) : (nonEmpty? cs).toList.flatMap (·.toList) = cs := by
  unfold nonEmpty?
  split
  · next empty => rw [List.isEmpty_iff.1 empty]; rfl
  · simp

/-- The words on the fence without blanks, and without the words that are to be erased. -/
theorem infoString_fenced (line : FenceLine infoLine.toList first others) (content : String)
    (infoPrefix : Option String) :
    ((fenced infoLine content).infoString infoPrefix).toList =
      Text.eraseAll (infoPrefix.getD "").toList ((first ++ others).filter (· != ' ')) := by
  obtain ⟨rest, split, rfl⟩ := line.span_trim
  unfold infoString fenced
  simp only [split]
  rw [List.flatMap_append, text_nonEmpty?, text_nonEmpty?, String.toList_ofList]

/-- No blank is ever left in an info string. -/
theorem blank_not_mem_infoString (infoLine content : String) (infoPrefix : Option String) :
    ' ' ∉ ((fenced infoLine content).infoString infoPrefix).toList := by
  obtain ⟨first, others, line⟩ := FenceLine.exists_of_text infoLine.toList
  rw [infoString_fenced line]
  intro mem
  have kept := (Text.eraseAll_sublist _ _).subset mem
  exact absurd (List.mem_filter.1 kept).2 (by decide)

/-- Where the words are set apart by blanks, the info string is the line without any white space. -/
theorem infoString_of_blanks (line : FenceLine infoLine.toList first others)
    (blanks : Text.SpacedByBlanks others) (content : String) (infoPrefix : Option String) :
    ((fenced infoLine content).infoString infoPrefix).toList =
      Text.eraseAll (infoPrefix.getD "").toList (Text.unspaced infoLine.toList) := by
  have both : Text.SpacedByBlanks (first ++ others) :=
    List.forall_mem_append.2 ⟨fun c mem => .inl (line.word c mem), blanks⟩
  rw [infoString_fenced line, line.unspaced_eq, Text.filter_blank both]

/-- The white space of an info string is that of the words on the fence, without blanks. -/
theorem filter_infoString (line : FenceLine infoLine.toList first others)
    {infoPrefix : Option String} (none : Text.Unspaced (infoPrefix.getD "").toList)
    (content : String) :
    ((fenced infoLine content).infoString infoPrefix).toList.filter Text.isWhiteSpace =
      others.filter (fun c => Text.isWhiteSpace c && c != ' ') := by
  have word : first.filter (fun c => Text.isWhiteSpace c && c != ' ') = [] :=
    Text.spacedByBlanks_iff_filter.1 fun c mem => .inl (line.word c mem)
  rw [infoString_fenced line, Text.filter_eraseAll none, List.filter_filter, List.filter_append,
    word, List.nil_append]

end CodeBlock

/-- **White space on a fence.**  There are no blanks in the info string that a highlighter reads.
If the words behind the first one are parted by blanks alone, it is the line without its white
space, but for the text that is to be erased.  If that text has no white space in it, all the white
space between those words that is not blanks is kept, so that the info string is free of white space
in no other case. -/
theorem Highlighter.fence?_fenced {γ σ : Type} (h : Highlighter γ σ) (infoLine content : String) :
    let info := (CodeBlock.fenced infoLine content).infoString h.config.infoPrefix
    let erased := (h.config.infoPrefix.getD "").toList
    h.fence? (.fenced infoLine content) = Fence.ofText? h.config info ∧
      ' ' ∉ info.toList ∧
      (∃ first others, FenceLine infoLine.toList first others) ∧
      ∀ first others, FenceLine infoLine.toList first others →
        (Text.SpacedByBlanks others →
          info.toList = Text.eraseAll erased (Text.unspaced infoLine.toList) ∧
            Text.Unspaced info.toList) ∧
        (Text.Unspaced erased →
          info.toList.filter Text.isWhiteSpace =
              others.filter (fun c => Text.isWhiteSpace c && c != ' ') ∧
            (Text.Unspaced info.toList ↔ Text.SpacedByBlanks others)) := by
  intro info erased
  refine ⟨rfl, CodeBlock.blank_not_mem_infoString infoLine content _,
    FenceLine.exists_of_text _, fun first others line => ⟨fun blanks => ?_, fun none => ?_⟩⟩
  · have same := CodeBlock.infoString_of_blanks line blanks content h.config.infoPrefix
    refine ⟨same, fun c mem => ?_⟩
    have kept := (Text.eraseAll_sublist _ _).subset (same ▸ mem)
    exact Text.unspaced_unspaced _ c kept
  · have left := CodeBlock.filter_infoString line none content
    refine ⟨left, ?_⟩
    rw [Text.unspaced_iff_filter, left, ← Text.spacedByBlanks_iff_filter]

/-- Other white space than blanks at the ends of the line and behind the first word. -/
theorem Highlighter.fence?_fenced_spaced :
    let h : Highlighter Unit Unit :=
      { tokenizer := .plain none
        stylist := ⟨fun _ => [], fun _ => []⟩
        fallback := .plain
        config := { infoPrefix := some "x-" } }
    let infoLine := "\tx-c\u00a0\t\x7b1\x7d  [npm]\u3000"
    let info := (CodeBlock.fenced infoLine "").infoString h.config.infoPrefix
    FenceLine infoLine.toList "x-c".toList "\x7b1\x7d  [npm]".toList ∧
      Text.SpacedByBlanks "\x7b1\x7d  [npm]".toList ∧ Text.Unspaced "x-".toList ∧
      info.toList = Text.eraseAll "x-".toList (Text.unspaced infoLine.toList) ∧
      Text.Unspaced info.toList ∧
      h.fence? (.fenced infoLine "") = some ⟨"c", .disabled, [⟨1, 1, Nat.le_refl 1⟩], some "npm"⟩ := by
  intro h infoLine info
  have line : FenceLine infoLine.toList "x-c".toList "\x7b1\x7d  [npm]".toList := by
    refine ⟨⟨['\t'], ['\u00a0', '\t'], ['\u3000'], by decide, List.all_eq_true.1 (by decide), nofun⟩,
      by decide, nofun, ?_, ?_⟩
    · rintro c ⟨⟩
      decide
    · rintro c ⟨⟩
      decide
  have blanks : Text.SpacedByBlanks "\x7b1\x7d  [npm]".toList := by decide
  have none : Text.Unspaced "x-".toList := by decide
  obtain ⟨read, -, -, parts⟩ := h.fence?_fenced infoLine ""
  obtain ⟨same, -⟩ := (parts _ _ line).1 blanks
  refine ⟨line, blanks, none, same, ((parts _ _ line).2 none).2.2 blanks, ?_⟩
  rw [read]
  decide +kernel

/-- A tab between the words stays, and the group behind it is not found, as it is behind a blank. -/
theorem Highlighter.fence?_fenced_tab :
    let h : Highlighter Unit Unit :=
      { tokenizer := .plain none
        stylist := ⟨fun _ => [], fun _ => []⟩
        fallback := .plain
        config := {} }
    let block := CodeBlock.fenced "c \x7b1\x7d\t[npm]" ""
    block.infoString h.config.infoPrefix = "c\x7b1\x7d\t[npm]" ∧
      ¬ Text.Unspaced (block.infoString h.config.infoPrefix).toList ∧
      h.fence? block = some ⟨"c", .disabled, [⟨1, 1, Nat.le_refl 1⟩], none⟩ ∧
      h.fence? (.fenced "c \x7b1\x7d [npm]" "") =
        some ⟨"c", .disabled, [⟨1, 1, Nat.le_refl 1⟩], some "npm"⟩ := by
  intro h block
  have info : block.infoString h.config.infoPrefix = "c\x7b1\x7d\t[npm]" := by decide +kernel
  refine ⟨info, ?_, by decide +kernel, by decide +kernel⟩
  rw [info]
  decide

end CodeListing
