import CodeListing.Proofs.History
import CodeListing.Proofs.Page
import CodeListing.Proofs.SourceText

/-!
# Flags, frame and gutter agree with the lines

Whether a line has the focus and whether numbers were asked for is gathered while the lines are
passed, the gutter is kept apart from the code, and the frame is written last.
`Highlighter.render_page` says that all of them show the same directives.
-/

namespace CodeListing

open Markup

/-! ## From lines to their history -/

/-- The directives of a line of code. -/
def DirectiveComment.directives (line : String) : List Directive :=
  (split line).words.filterMap Directive.ofText?

/-- The line at the place `index` as its directives find it. -/
def Fence.worded (fence : Fence) (index : Nat) (line : String) : WordedLine where
  mark := if fence.highlights index then .highlighted else .plain
  words := (DirectiveComment.split line).words

namespace Progress

/-- Words that are obeyed to the end are directives, all of them. -/
theorem isKnown_of_obeyWords {p p' : Progress} {note note' : LineNote} {line : WordedLine}
    (obeyed : p.obeyWords note line.words = (p', .ok note')) : line.isKnown := by
  have known := p.find?_of_obeyWords note line.words
  rw [obeyed] at known
  refine List.all_eq_true.2 fun word member => ?_
  have directive := List.find?_eq_none.1 known word member
  exact Option.isSome_iff_ne_none.2 fun none => directive (by rw [none]; rfl)

/-- Only a line of known words is passed. -/
theorem isKnown_of_passLine {fence : Fence} {p p' : Progress} {index : Nat} {line : String}
    {note : LineNote} (passed : p.passLine fence index line = (p', .ok note)) :
    (fence.worded index line).isKnown := by
  unfold passLine pass at passed
  split at passed
  · cases passed
  · next obeyed =>
    change p.obeyWords _ (fence.worded index line).words = _ at obeyed
    exact isKnown_of_obeyWords obeyed

/-- A line that is passed goes into the history, and its note is the one that the history says. -/
theorem passLine_behind {fence : Fence} {before : List (List Directive)} {p' : Progress}
    {index : Nat} {line : String} {note : LineNote}
    (passed : (behind fence.numbering before).passLine fence index line = (p', .ok note)) :
    p' = behind fence.numbering (before ++ [DirectiveComment.directives line]) ∧
      note = .behind fence.numbering before (fence.worded index line).mark
        (DirectiveComment.directives line) := by
  have known := isKnown_of_passLine passed
  have pass := behind_pass fence.numbering before index known
  obtain ⟨progress, result⟩ := Prod.mk.inj (passed.symm.trans pass)
  exact ⟨progress, Except.ok.inj result⟩

end Progress

/-- Lines that have all been done leave behind what their directives say, and the notes on them are
those of their history. -/
theorem Transcript.fromLine_behind {γ σ : Type} (tokenizer : Tokenizer γ σ) (grammar : γ)
    (fence : Fence) (index : Nat) (before : List (List Directive)) (state : Option σ)
    (lines : List String)
    (complete : (fromLine tokenizer grammar fence index (.behind fence.numbering before) state
      lines).failure = none) :
    (fromLine tokenizer grammar fence index (.behind fence.numbering before) state lines).progress =
        .behind fence.numbering (before ++ lines.map DirectiveComment.directives) ∧
      fence.notesFrom index (.behind fence.numbering before) lines =
        Progress.notesBehind fence.numbering before
          ((lines.zipIdx index).map fun (line, index) => fence.worded index line) := by
  induction lines generalizing index before state with
  | nil => simp [fromLine, Fence.notesFrom, Progress.notesBehind]
  | cons line lines ih =>
    rcases passed : (Progress.behind fence.numbering before).passLine fence index line with
      ⟨progress', e | note⟩
    · rw [fromLine_unknown tokenizer grammar fence lines passed] at complete
      cases complete
    · obtain ⟨rfl, rfl⟩ := Progress.passLine_behind passed
      rcases answer : tokenizer.tokenize grammar (DirectiveComment.split line).code state with
        detail | ⟨tokens, state'⟩
      · rw [fromLine_failed tokenizer grammar fence lines passed answer] at complete
        cases complete
      · rw [fromLine_ok tokenizer grammar fence lines passed answer] at complete ⊢
        obtain ⟨progress, notes⟩ := ih (index + 1) _ (some state') complete
        refine ⟨progress.trans (by simp), ?_⟩
        simp only [Fence.notesFrom, passed, notes]
        rfl

/-! ## Flags and notes -/

/-- Numbering is switched on by the directives that ask for a number, and by no other. -/
theorem Directive.true_mem_switches {directives : List Directive} :
    true ∈ switches directives ↔ ∃ first, .numbered first ∈ directives := by
  unfold switches
  rw [List.mem_filterMap]
  constructor
  · rintro ⟨directive, member, asks⟩
    cases directive with
    | numbered first => exact ⟨first, member⟩
    | _ => cases asks
  · rintro ⟨first, member⟩
    exact ⟨_, member, rfl⟩

theorem LineNumbering.isOn_iff {numbering : LineNumbering} :
    numbering.isOn ↔ numbering ≠ .disabled := by
  cases numbering <;> simp [isOn]

/-- Where no number has been asked for so far, a line shows none and passes none over. -/
theorem LineNote.behind_unnumbered {numbering : LineNumbering} {before : List (List Directive)}
    {mark : LineMark} {directives : List Directive}
    (quiet : (Progress.behind numbering (before ++ [directives])).anyNumbered = false) :
    (behind numbering before mark directives).number = none ∧
      (behind numbering before mark directives).skipped = [] := by
  simp only [Progress.behind, Bool.or_eq_false_iff] at quiet
  obtain ⟨off, never⟩ := quiet
  have silent : true ∉ Directive.switches (before ++ [directives]).flatten := by simpa using never
  constructor
  · have hidden : numbering.shownBehind (before ++ [directives]) = false := by
      unfold LineNumbering.shownBehind
      cases last : (Directive.switches (before ++ [directives]).flatten).getLast? with
      | none => exact off
      | some shown =>
        cases shown with
        | false => rfl
        | true => exact absurd (List.mem_of_getLast? last) silent
    simp [behind, hidden]
  · have none' : Directive.targets directives = [] := by
      refine List.filterMap_eq_nil_iff.2 fun directive member => ?_
      cases directive with
      | numbered first =>
        refine absurd (Directive.true_mem_switches.2 ⟨first, ?_⟩) silent
        simpa using Or.inr member
      | _ => rfl
    simp [behind, none', NumberRange.gaps]

namespace Progress

variable (numbering : LineNumbering)

/-- Something is in focus exactly if a directive has asked for it. -/
theorem anyFocused_behind (history : List (List Directive)) :
    (behind numbering history).anyFocused ↔ ∃ directives ∈ history, .focus ∈ directives := by
  simp [behind]

/-- Something is numbered exactly if the fence or a directive has asked for it. -/
theorem anyNumbered_behind (history : List (List Directive)) :
    (behind numbering history).anyNumbered ↔
      numbering ≠ .disabled ∨ ∃ directives ∈ history, ∃ first, .numbered first ∈ directives := by
  have asked : true ∈ Directive.switches history.flatten ↔
      ∃ directives ∈ history, ∃ first, Directive.numbered first ∈ directives := by
    rw [Directive.true_mem_switches]
    constructor
    · rintro ⟨first, member⟩
      obtain ⟨directives, line, within⟩ := List.mem_flatten.1 member
      exact ⟨directives, line, first, within⟩
    · rintro ⟨directives, line, first, within⟩
      exact ⟨first, List.mem_flatten.2 ⟨directives, line, within⟩⟩
  simp only [behind, Bool.or_eq_true, LineNumbering.isOn_iff, List.contains_iff_mem, asked]

/-- A line is in focus exactly if one of its own directives says so. -/
theorem focused_notesBehind (before : List (List Directive)) (lines : List WordedLine) :
    (∃ note ∈ notesBehind numbering before lines, note.focused) ↔
      ∃ line ∈ lines, .focus ∈ line.directives := by
  induction lines generalizing before with
  | nil => simp [notesBehind]
  | cons line lines ih =>
    rw [notesBehind, List.exists_mem_cons_iff, List.exists_mem_cons_iff, ih]
    simp [LineNote.behind]

/-- In a block without numbers no line has one and none passes one over. -/
theorem unnumbered_notesBehind {before : List (List Directive)} {lines : List WordedLine}
    (quiet :
      (behind numbering (before ++ lines.map WordedLine.directives)).anyNumbered = false) :
    ∀ note ∈ notesBehind numbering before lines, note.number = none ∧ note.skipped = [] := by
  induction lines generalizing before with
  | nil => simp [notesBehind]
  | cons line lines ih =>
    rw [List.map_cons, ← List.singleton_append, ← List.append_assoc] at quiet
    rw [notesBehind, List.forall_mem_cons]
    refine ⟨LineNote.behind_unnumbered ?_, ih quiet⟩
    rw [← Bool.not_eq_true, anyNumbered_behind] at quiet ⊢
    rintro (on | ⟨directives, member, asks⟩)
    · exact quiet (.inl on)
    · exact quiet (.inr ⟨directives, List.mem_append_left _ member, asks⟩)

end Progress

/-! ## Rows and their classes -/

/-- The classes of a line, read as words, are those that its note asks for. -/
theorem LineNote.words_classes (n : LineNote) :
    let classes := (Text.words n.classes.toList).map String.ofList
    classes.contains "line" = true ∧ classes.contains "has-focus" = n.focused ∧
      classes.contains "skipped-lines" = false := by
  have words : ∀ (mark : LineMark) (focused : Bool),
      let classes := (Text.words ("line" ++ mark.classes ++
        if focused then " has-focus" else "").toList).map String.ofList
      classes.contains "line" = true ∧ classes.contains "has-focus" = focused ∧
        classes.contains "skipped-lines" = false := by
    intro mark focused
    cases mark <;> cases focused <;> decide +kernel
  exact words n.mark n.focused

/-- The row of a line says by its classes whether the line is in focus, and that nothing is passed
over. -/
theorem ListingLine.hasClass_row (l : ListingLine StylePair) :
    l.row.hasClass "line" = true ∧ l.row.hasClass "has-focus" = l.note.focused ∧
      l.row.hasClass "skipped-lines" = false := by
  have classes : l.row.classes = (Text.words l.note.classes.toList).map String.ofList :=
    Element.classes_eq rfl
  simp only [Element.hasClass, classes]
  exact l.note.words_classes

theorem NumberRange.hasClass_row (r : NumberRange) :
    r.row.hasClass "has-focus" = false ∧ r.row.hasClass "skipped-lines" = true := by
  have classes : r.row.classes = ["line", "highlighted", "skipped-lines"] :=
    (Element.classes_eq rfl).trans (by decide +kernel)
  simp only [Element.hasClass, classes]
  decide

namespace Listing

variable (l : Listing StylePair)

/-- The frame says by its class whether any line is in focus. -/
theorem hasClass_frame : l.page.frame.hasClass "has-focused-lines" = l.anyFocused := by
  have classes : l.page.frame.classes =
      (Text.words (if l.anyFocused then "codefence has-focused-lines"
        else "codefence").toList).map String.ofList :=
    Element.classes_eq rfl
  rw [Element.hasClass, classes]
  cases l.anyFocused <;> decide +kernel

/-- The rows in focus are those of the lines in focus. -/
theorem focused_rows :
    (∃ row ∈ l.page.rows, row.hasClass "line" ∧ row.hasClass "has-focus") ↔
      ∃ line ∈ l.lines, line.note.focused := by
  constructor
  · rintro ⟨row, member, -, focused⟩
    obtain ⟨line, found, within⟩ := List.mem_flatMap.1 member
    rcases List.mem_append.1 within with skipped | last
    · obtain ⟨r, -, rfl⟩ := List.mem_map.1 skipped
      rw [r.hasClass_row.1] at focused
      cases focused
    · obtain rfl := List.mem_singleton.1 last
      exact ⟨line, found, line.hasClass_row.2.1 ▸ focused⟩
  · rintro ⟨line, found, focused⟩
    refine ⟨line.row, List.mem_flatMap.2 ⟨line, found, ?_⟩, line.hasClass_row.1, ?_⟩
    · exact List.mem_append_right _ (List.mem_singleton.2 rfl)
    · rw [line.hasClass_row.2.1, focused]

/-- Without numbers passed over there is no row for them. -/
theorem skipped_rows (none' : ∀ line ∈ l.lines, line.note.skipped = []) :
    ∀ row ∈ l.page.rows, row.hasClass "skipped-lines" = false := by
  intro row member
  obtain ⟨line, found, within⟩ := List.mem_flatMap.1 member
  rw [ListingLine.rows, none' line found] at within
  obtain rfl := List.mem_singleton.1 within
  exact line.hasClass_row.2.2

end Listing

/-- A row of the code and a row of the gutter that stand for the same: for numbers that are passed
over, or for a line and its number. -/
inductive Page.Beside : Element → Element → Prop
  | skipped (r : NumberRange) : Beside r.row (GutterRow.skipped r).row
  | line (l : ListingLine StylePair) {n : UInt64} :
      l.note.number = some n → Beside l.row (GutterRow.number n).row

/-- Each row of a numbered line has its own row beside it in the gutter. -/
theorem ListingLine.beside_rows {l : ListingLine StylePair} (numbered : l.note.number.isSome) :
    List.Forall₂ Page.Beside l.rows (l.note.gutter.map GutterRow.row) := by
  obtain ⟨n, number⟩ := Option.isSome_iff_exists.1 numbered
  rw [rows, LineNote.gutter, number, List.map_append, List.map_map]
  refine List.rel_append ?_ (.cons (.line l number) .nil)
  induction l.note.skipped with
  | nil => exact .nil
  | cons r skipped ih => exact .cons (.skipped r) ih

/-- The rows of numbered lines and of the gutter go along with each other. -/
theorem Listing.beside_rows {lines : List (ListingLine StylePair)}
    (numbered : ∀ line ∈ lines, line.note.number.isSome) :
    List.Forall₂ Page.Beside (lines.flatMap ListingLine.rows)
      ((lines.flatMap (·.note.gutter)).map GutterRow.row) := by
  induction lines with
  | nil => exact .nil
  | cons line lines ih =>
    obtain ⟨first, others⟩ := List.forall_mem_cons.1 numbered
    rw [List.flatMap_cons, List.flatMap_cons, List.map_append]
    exact List.rel_append (ListingLine.beside_rows first) (ih others)

/-- If every line is numbered, the gutter has a row for each row of the code, in the same order. -/
theorem Listing.beside_gutter (l : Listing StylePair)
    (numbered : ∀ line ∈ l.lines, line.note.number.isSome)
    (quiet : l.anyNumbered = false → ∀ line ∈ l.lines, line.note.number = none) :
    List.Forall₂ Page.Beside l.page.rows (l.page.gutter.getD []) := by
  have gutter : l.page.gutter =
      if l.anyNumbered then some (l.gutterRows.map GutterRow.row) else none := rfl
  cases on : l.anyNumbered with
  | true =>
    rw [gutter, if_pos on, Option.getD_some]
    exact Listing.beside_rows numbered
  | false =>
    -- no line has a number then, so there are no lines
    have empty : l.lines = [] := by
      refine List.eq_nil_iff_forall_not_mem.2 fun line member => ?_
      have some' := numbered line member
      rw [quiet on line member] at some'
      cases some'
    have rows : l.page.rows = [] := by
      change l.lines.flatMap ListingLine.rows = []
      rw [empty, List.flatMap_nil]
    rw [gutter, on, rows]
    exact .nil

/-- A page of these lines on which flags, frame, rows and gutter agree. -/
structure Page.Agrees (page : Page) (fence : Fence) (lines : List String)
    (anyFocused anyNumbered : Bool) : Prop where
  /-- There is a note on every line. -/
  notes : (fence.notes lines).length = lines.length
  /-- In the code there are, line by line, what the line passes over and the line itself. -/
  rows : ∃ shown : List (ListingLine StylePair), shown.map ListingLine.note = fence.notes lines ∧
    page.rows = shown.flatMap ListingLine.rows
  focused : anyFocused ↔ ∃ line ∈ lines, .focus ∈ DirectiveComment.directives line
  focusedFrame : anyFocused ↔ page.frame.hasClass "has-focused-lines"
  focusedRow : anyFocused ↔ ∃ row ∈ page.rows, row.hasClass "line" ∧ row.hasClass "has-focus"
  numbered : anyNumbered ↔ fence.numbering ≠ .disabled ∨
    ∃ line ∈ lines, ∃ first, .numbered first ∈ DirectiveComment.directives line
  hasGutter : anyNumbered ↔ page.gutter.isSome
  /-- Without a gutter there are no numbers, and nothing is passed over. -/
  unnumbered : anyNumbered = false →
    (∀ note ∈ fence.notes lines, note.number = none ∧ note.skipped = []) ∧
      ∀ row ∈ page.rows, row.hasClass "skipped-lines" = false
  /-- In the gutter there are, line by line, what the line passes over and its number if it has
  one. -/
  gutter : anyNumbered = true →
    page.gutter = some (((fence.notes lines).flatMap LineNote.gutter).map GutterRow.row)
  /-- Where all lines are numbered, the gutter stands row for row beside the code. -/
  beside : (∀ note ∈ fence.notes lines, note.number.isSome) →
    List.Forall₂ Page.Beside page.rows (page.gutter.getD [])

/-- The notes of a transcript that has come to its end, in closed form. -/
theorem Transcript.ofLines_behind {γ σ : Type} (tokenizer : Tokenizer γ σ) (grammar : γ)
    (fence : Fence) (lines : List String)
    (complete : (ofLines tokenizer grammar fence lines).failure = none) :
    ∃ worded : List WordedLine,
      worded.map WordedLine.directives = lines.map DirectiveComment.directives ∧
      (ofLines tokenizer grammar fence lines).progress =
        .behind fence.numbering (worded.map WordedLine.directives) ∧
      fence.notes lines = Progress.notesBehind fence.numbering [] worded ∧
      (fence.notes lines).length = lines.length ∧
      (ofLines tokenizer grammar fence lines).lines.map (·.note) = fence.notes lines := by
  obtain ⟨length, shown, -⟩ :=
    readable_fromLine tokenizer grammar fence 0 (.start fence.numbering) none lines complete
  have directives : ((lines.zipIdx 0).map fun (line, index) => fence.worded index line).map
      WordedLine.directives = lines.map DirectiveComment.directives := by
    conv_rhs => rw [← List.zipIdx_map_fst 0 lines]
    rw [List.map_map, List.map_map]
    rfl
  have closed := fromLine_behind tokenizer grammar fence 0 [] none lines
  rw [← Progress.start_eq_behind] at closed
  obtain ⟨progress, notes⟩ := closed complete
  exact ⟨_, directives, by rw [directives]; exact progress, notes, length, shown⟩

namespace Highlighter

variable {γ σ : Type} (h : Highlighter γ σ) (block : CodeBlock) (out : String)

/-- Of a block without a fault, what is found on the page is what its fence and its directives ask
for. -/
theorem page_agrees {fence : Fence} {grammar : γ}
    (complete : (Transcript.ofLines h.tokenizer grammar fence block.lines).failure = none) :
    let l := h.listing block fence grammar
    l.page.Agrees fence block.lines l.anyFocused l.anyNumbered := by
  intro l
  obtain ⟨worded, directives, progress, notes, length, shown⟩ :=
    Transcript.ofLines_behind h.tokenizer grammar fence block.lines complete
  have sameNotes : l.lines.map ListingLine.note = fence.notes block.lines :=
    (h.styles.note_styleLines h.stylist _).trans shown
  have eachNote : ∀ {P : LineNote → Prop},
      (∀ note ∈ fence.notes block.lines, P note) → ∀ line ∈ l.lines, P line.note := by
    intro P all line member
    exact all line.note (sameNotes ▸ List.mem_map_of_mem member)
  have anyFocused : l.anyFocused = (Progress.behind fence.numbering
      (block.lines.map DirectiveComment.directives)).anyFocused := by
    rw [← directives, ← progress]
    rfl
  have anyNumbered : l.anyNumbered = (Progress.behind fence.numbering
      (block.lines.map DirectiveComment.directives)).anyNumbered := by
    rw [← directives, ← progress]
    rfl
  have focused : l.anyFocused ↔
      ∃ line ∈ block.lines, .focus ∈ DirectiveComment.directives line := by
    rw [anyFocused, Progress.anyFocused_behind]
    simp
  have unnumbered : l.anyNumbered = false →
      ∀ note ∈ fence.notes block.lines, note.number = none ∧ note.skipped = [] := by
    intro quiet
    rw [notes]
    refine Progress.unnumbered_notesBehind fence.numbering ?_
    rw [List.nil_append, directives, ← anyNumbered, quiet]
  have gutter : l.page.gutter = if l.anyNumbered then
      some (((fence.notes block.lines).flatMap LineNote.gutter).map GutterRow.row) else none := by
    rw [← sameNotes, List.flatMap_map]
    rfl
  constructor
  case notes => exact length
  case rows => exact ⟨l.lines, sameNotes, rfl⟩
  case focused => exact focused
  case focusedFrame => rw [l.hasClass_frame]
  case focusedRow =>
    have history := Progress.focused_notesBehind fence.numbering [] worded
    rw [← notes, ← sameNotes] at history
    have fromWords : (∃ line ∈ worded, .focus ∈ line.directives) ↔
        ∃ line ∈ block.lines, .focus ∈ DirectiveComment.directives line := by
      have all := congrArg (∃ found ∈ ·, Directive.focus ∈ found) directives
      simpa using all
    rw [l.focused_rows, focused, ← fromWords, ← history]
    simp
  case numbered =>
    rw [anyNumbered, Progress.anyNumbered_behind]
    simp
  case hasGutter =>
    rw [gutter]
    cases l.anyNumbered <;> simp
  case unnumbered =>
    intro quiet
    exact ⟨unnumbered quiet,
      l.skipped_rows (eachNote fun note member => (unnumbered quiet note member).2)⟩
  case gutter =>
    intro on
    rw [gutter, if_pos on]
  case beside =>
    intro all
    exact l.beside_gutter (eachNote all) fun quiet =>
      eachNote fun note member => (unnumbered quiet note member).1

/-- **Flags, frame and gutter agree with the lines.**  Behind what was there before, there is a page
to be found of a highlighted block.  Its frame and its rows show a focus, and the outcome says so,
if a directive asks for one; it has a gutter, and the outcome says so, if the fence or a directive
asks for numbers.  Without a gutter there are no numbers and nothing is passed over.  A gutter has,
line by line, what the line passes over and its number if it has one; if all lines have, it stands
row for row beside the code. -/
theorem render_page {anyFocused anyNumbered : Bool}
    (shown : (h.render block out).outcome = .ok (.highlighted anyFocused anyNumbered)) :
    ∃ fence grammar text page, h.plan block = .ok (fence, grammar) ∧
      (h.render block out).out = out ++ text ∧ Page.ofText? text = some page ∧
      page.Agrees fence block.lines anyFocused anyNumbered := by
  obtain ⟨fence, grammar, planned, complete, focused, numbered⟩ :=
    h.plan_of_highlighted block out shown
  obtain ⟨-, -, written⟩ := h.render_of_plan block out planned
  subst focused numbered
  exact ⟨fence, grammar, _, _, planned, written complete, Listing.ofText?_markup _,
    h.page_agrees block complete⟩

/-- A block with a focus and a jump whose fence does not ask for numbers. -/
theorem render_page_jump :
    let h : Highlighter Unit Unit :=
      { tokenizer := .plain none
        stylist := ⟨fun _ => [], fun _ => []⟩
        fallback := .plain
        config := {} }
    let block := CodeBlock.fenced "js" "a\nb // [!code line-numbers=4 focus]\nc"
    (h.render block "before").outcome = .ok (.highlighted true true) ∧
      ∃ text page, (h.render block "before").out = "before" ++ text ∧
        Page.ofText? text = some page ∧
        page.Agrees ⟨"js", .disabled, [], none⟩ block.lines true true := by
  intro h block
  have planned : h.plan block = .ok (⟨"js", .disabled, [], none⟩, ()) := by decide +kernel
  have shown : (h.render block "before").outcome = .ok (.highlighted true true) := by
    rw [(h.render_of_plan block "before" planned).1]
    decide +kernel
  obtain ⟨fence, grammar, text, page, planned', written, found, agrees⟩ :=
    render_page h block "before" shown
  obtain ⟨rfl, -⟩ := Prod.mk.inj (Except.ok.inj (planned.symm.trans planned'))
  exact ⟨shown, text, page, written, found, agrees⟩

end Highlighter

end CodeListing
