import CodeListing.Line.History

/-!
# Lines come to what their history says

`Progress.passAll_behind` goes through the lines of a block and finds behind each of them what
`Progress.behind` says in closed form.  It rests on two facts: what the directives of one line do
(`Progress.obeyAll_eq`), and that counting on in words of 64 bits is counting on in exact numbers
for as long as there is a word (`bind_successor?_number?`).
-/

namespace CodeListing

theorem getLast?_toList {α : Type} (last : Option α) : last.toList.getLast? = last := by
  cases last <;> rfl

theorem getLast?_toList_append {α : Type} (last : Option α) (others : List α) :
    (last.toList ++ others).getLast? = others.getLast?.or last := by
  rw [List.getLast?_append, getLast?_toList]

/-! ## Words and exact numbers -/

/-- The number is in 64 bits, and it is this one. -/
theorem number?_eq_some_iff {n : Nat} {w : UInt64} : number? n = some w ↔ w.toNat = n := by
  unfold number?
  constructor
  · intro found
    split at found
    · obtain rfl := Option.some.inj found
      simp
    · cases found
  · rintro rfl
    rw [dif_pos w.toNat_lt]
    simp

theorem number?_toNat (w : UInt64) : number? w.toNat = some w := number?_eq_some_iff.2 rfl

theorem number?_eq_none_iff {n : Nat} : number? n = none ↔ UInt64.size ≤ n := by
  simp [number?]

/-- Counting on never wraps around. -/
theorem bind_successor?_number? (n : Nat) :
    (number? n).bind Progress.successor? = number? (n + 1) := by
  cases found : number? n with
  | none =>
    have beyond := number?_eq_none_iff.1 found
    exact (number?_eq_none_iff.2 (by omega)).symm
  | some w =>
    obtain rfl := number?_eq_some_iff.1 found
    have bound : w.toNat < UInt64.size := w.toNat_lt
    have next : (w + 1).toNat = (w.toNat + 1) % UInt64.size := by simp [UInt64.toNat_add]
    rw [Option.bind_some, Progress.successor?]
    by_cases last : w.toNat + 1 = UInt64.size
    · have zero : w + 1 = 0 := UInt64.toNat_inj.1 (by simp [next, last])
      rw [if_pos zero]
      exact (number?_eq_none_iff.2 (by omega)).symm
    · rw [Nat.mod_eq_of_lt (by omega)] at next
      have more : w + 1 ≠ 0 := fun zero => by simp [zero] at next
      rw [if_neg more]
      exact (number?_eq_some_iff.2 next).symm

namespace NumberRange

/-- A gap ends in front of the target, and is there only if that is no step back, so taking one from
the target never wraps around. -/
theorem gap?_eq_some_iff {next target : UInt64} {r : NumberRange} :
    gap? next target = some r ↔
      next < target ∧ r.first = next ∧ r.last.toNat + 1 = target.toNat := by
  unfold gap?
  by_cases ahead : next < target
  · have bound := UInt64.lt_iff_toNat_lt.1 ahead
    have last : (target - 1).toNat = target.toNat - 1 :=
      UInt64.toNat_sub_of_le target 1 (UInt64.le_iff_toNat_le.2 (by simp; omega))
    rw [dif_pos ahead, Option.some.injEq]
    constructor
    · rintro rfl
      exact ⟨ahead, rfl, by simp only [last]; omega⟩
    · rintro ⟨-, first, stop⟩
      obtain ⟨a, b, ordered⟩ := r
      have same : target - 1 = b := UInt64.toNat_inj.1 (by simp only at stop; omega)
      simp only at first
      subst first same
      rfl
  · rw [dif_neg ahead]
    constructor
    · intro absent
      cases absent
    · rintro ⟨ahead', -⟩
      exact absurd ahead' ahead

/-- In exact numbers, a jump ahead passes over what is from the number due up to the target. -/
theorem ends_gap? (n : Nat) (target : UInt64) :
    ((number? n).bind (gap? · target)).toList.map ends =
      if n < target.toNat then [(n, target.toNat - 1)] else [] := by
  have bound : target.toNat < UInt64.size := target.toNat_lt
  cases found : number? n with
  | none =>
    have beyond := number?_eq_none_iff.1 found
    rw [if_neg (by omega)]
    rfl
  | some next =>
    obtain rfl := number?_eq_some_iff.1 found
    rw [Option.bind_some]
    cases gap : gap? next target with
    | none =>
      have notAhead : ¬ next < target := fun ahead => by simp [gap?, ahead] at gap
      rw [if_neg (by rwa [UInt64.lt_iff_toNat_lt] at notAhead)]
      rfl
    | some r =>
      obtain ⟨ahead, rfl, last⟩ := gap?_eq_some_iff.1 gap
      rw [if_pos (UInt64.lt_iff_toNat_lt.1 ahead)]
      simp only [Option.toList_some, List.map_cons, List.map_nil, ends]
      rw [show r.last.toNat = target.toNat - 1 by omega]

/-- Numbers that are set later leave their gaps behind the last one set before. -/
theorem gaps_append (next : Option UInt64) (ahead targets : List UInt64) :
    gaps next (ahead ++ targets) =
      gaps next ahead ++ gaps (ahead.getLast?.or next) targets := by
  induction ahead generalizing next with
  | nil => rfl
  | cons target ahead ih =>
    have last : (target :: ahead).getLast?.or next = ahead.getLast?.or (some target) := by
      rw [List.getLast?_cons]
      cases ahead.getLast? <;> rfl
    rw [List.cons_append, gaps, gaps, ih, last, List.append_assoc]

/-- The gaps in front of a line are those that exact numbers leave. -/
theorem ends_gaps (n : Nat) (targets : List UInt64) :
    (gaps (number? n) targets).map ends = gapEnds n targets := by
  induction targets generalizing n with
  | nil => rfl
  | cons target targets ih =>
    rw [gaps, gapEnds, List.map_append, ends_gap?, ← ih, number?_toNat]

end NumberRange

/-! ## The directives of a line -/

/-- Words that are read one by one are all known, and the directives are what was read. -/
theorem WordedLine.known_of_read (mark : LineMark) {words : List String}
    {directives : List Directive} (read : words.map Directive.ofText? = directives.map some) :
    let line : WordedLine := ⟨mark, words⟩
    line.isKnown ∧ line.directives = directives := by
  constructor
  · have all : (words.map Directive.ofText?).all Option.isSome = true := by
      rw [read]
      simp
    simpa [WordedLine.isKnown] using all
  · have all : (words.map Directive.ofText?).filterMap id = directives := by
      rw [read]
      simp
    simpa [WordedLine.directives] using all

namespace Progress

/-- The effect of directives one after the other. -/
def obeyAll (p : Progress) (note : LineNote) (directives : List Directive) :
    Progress × LineNote :=
  directives.foldl (fun (p, note) directive => p.obey note directive) (p, note)

/-- What a directive does, field by field: whatever it is not about stays. -/
theorem obey_eq (p : Progress) (note : LineNote) (directive : Directive) :
    p.obey note directive =
      ({ numbered := directive.switch?.getD p.numbered
         next := directive.target?.or p.next
         anyFocused := p.anyFocused || .focus == directive
         anyNumbered := p.anyNumbered || directive.switch?.toList.contains true },
       { mark := note.mark.after directive
         focused := note.focused || .focus == directive
         number := note.number
         skipped := note.skipped ++ NumberRange.gaps p.next directive.target?.toList }) := by
  obtain ⟨numbered, next, anyFocused, anyNumbered⟩ := p
  obtain ⟨mark, focused, number, skipped⟩ := note
  cases directive with
  | numbered first =>
    cases first <;>
      simp [obey, Directive.target?, Directive.switch?, NumberRange.gaps]
  | _ => simp [obey, Directive.target?, Directive.switch?, NumberRange.gaps]

/-- Of several directives the last switch and the last jump count, and the marks are gone through in
order. -/
theorem obeyAll_eq (p : Progress) (note : LineNote) (directives : List Directive) :
    p.obeyAll note directives =
      ({ numbered := (Directive.switches directives).getLast?.getD p.numbered
         next := (Directive.targets directives).getLast?.or p.next
         anyFocused := p.anyFocused || directives.contains .focus
         anyNumbered := p.anyNumbered || (Directive.switches directives).contains true },
       { mark := directives.foldl LineMark.after note.mark
         focused := note.focused || directives.contains .focus
         number := note.number
         skipped := note.skipped ++ NumberRange.gaps p.next (Directive.targets directives) }) := by
  induction directives generalizing p note with
  | nil => simp [obeyAll, Directive.targets, Directive.switches, NumberRange.gaps]
  | cons directive directives ih =>
    have step : p.obeyAll note (directive :: directives) =
        (p.obey note directive).1.obeyAll (p.obey note directive).2 directives := rfl
    rw [step, obey_eq, ih, Directive.targets_cons, Directive.switches_cons]
    simp only [NumberRange.gaps_append, getLast?_toList, getLast?_toList_append, Option.getD_or,
      Option.or_assoc, List.contains_append, List.contains_cons, Bool.or_assoc, List.append_assoc,
      List.foldl_cons]

/-- Words are obeyed up to the first one that is no directive. -/
theorem find?_of_obeyWords (p : Progress) (note : LineNote) (words : List String) :
    match (p.obeyWords note words).2 with
    | .error word => words.find? (fun word => (Directive.ofText? word).isNone) = some word
    | .ok _ => words.find? (fun word => (Directive.ofText? word).isNone) = none := by
  induction words generalizing p note with
  | nil => rfl
  | cons word words ih =>
    cases known : Directive.ofText? word with
    | none => simp [obeyWords, known]
    | some directive =>
      have others := ih (p.obey note directive).1 (p.obey note directive).2
      simpa [obeyWords, known] using others

/-- Words that are directives are obeyed as these. -/
theorem obeyWords_known (p : Progress) (note : LineNote) {line : WordedLine}
    (known : line.isKnown) :
    p.obeyWords note line.words =
      ((p.obeyAll note line.directives).1, .ok (p.obeyAll note line.directives).2) := by
  obtain ⟨mark, words⟩ := line
  induction words generalizing p note with
  | nil => rfl
  | cons word words ih =>
    simp only [WordedLine.isKnown, List.all_cons, Bool.and_eq_true] at known ih
    obtain ⟨directive, found⟩ := Option.isSome_iff_exists.1 known.1
    have others := ih (p.obey note directive).1 (p.obey note directive).2 known.2
    simp only [obeyWords, found, others, WordedLine.directives, List.filterMap_cons_some found]
    rfl

/-- Words that are read as directives are obeyed as these. -/
theorem obeyWords_read (p : Progress) (note : LineNote) {words : List String}
    {directives : List Directive} (read : words.map Directive.ofText? = directives.map some) :
    p.obeyWords note words =
      ((p.obeyAll note directives).1, .ok (p.obeyAll note directives).2) := by
  obtain ⟨known, same⟩ := WordedLine.known_of_read note.mark read
  rw [← same]
  exact p.obeyWords_known note known

theorem pass_known (p : Progress) (index : Nat) {line : WordedLine} (known : line.isKnown) :
    p.pass index line.mark line.words =
      (let (p', note) := p.obeyAll { mark := line.mark } line.directives
       ({ p' with next := p'.next.bind successor? },
        .ok { note with number := if p'.numbered then p'.next else none })) := by
  rw [pass, obeyWords_known p _ known]

end Progress

/-! ## Jumps -/

namespace LineNumbering

variable (numbering : LineNumbering) (lines : List (List Directive)) (directives : List Directive)

theorem jumps_concat :
    jumps (lines ++ [directives]) =
      jumps lines ++ (Directive.targets directives).map (lines.length, ·) := by
  simp [jumps, List.zipIdx_append]

theorem lt_length_of_mem_jumps {jump : Nat × UInt64} (member : jump ∈ jumps lines) :
    jump.1 < lines.length := by
  obtain ⟨⟨found, place⟩, at', target⟩ := List.mem_flatMap.1 member
  obtain ⟨n, -, rfl⟩ := List.mem_map.1 target
  exact (List.mem_zipIdx' at').1

/-- Behind all lines so far, a line counts one more than the line before it. -/
theorem countedTo_succ {place : Nat} (behind : lines.length ≤ place + 1) :
    numbering.countedTo lines (place + 1) = numbering.countedTo lines place + 1 := by
  unfold countedTo
  cases last : (jumps lines).getLast? with
  | none => rfl
  | some jump =>
    have before := lt_length_of_mem_jumps lines (List.mem_of_getLast? last)
    show jump.2.toNat + (place + 1 - jump.1) = jump.2.toNat + (place - jump.1) + 1
    omega

/-- The number of a line is the last one that is set on it, or else the one that comes next. -/
theorem countedTo_concat :
    numbering.countedTo (lines ++ [directives]) lines.length =
      ((Directive.targets directives).getLast?.map UInt64.toNat).getD (numbering.due lines) := by
  unfold countedTo due countedTo
  rw [jumps_concat, List.getLast?_append, List.getLast?_map]
  cases (Directive.targets directives).getLast? with
  | none => rfl
  | some target => simp

/-- Numbers go up by one on every line. -/
theorem due_concat :
    numbering.due (lines ++ [directives]) =
      numbering.countedTo (lines ++ [directives]) lines.length + 1 := by
  rw [due, List.length_append, List.length_singleton]
  exact numbering.countedTo_succ _ (by simp)

/-- The last switch on a line says whether numbers are shown from there on. -/
theorem shownBehind_concat :
    numbering.shownBehind (lines ++ [directives]) =
      (Directive.switches directives).getLast?.getD (numbering.shownBehind lines) := by
  simp only [shownBehind, List.flatten_append, List.flatten_singleton, Directive.switches_append,
    List.getLast?_append]
  cases (Directive.switches directives).getLast? <;> rfl

/-- The number of a line is the one that its last jump asks for, or the one that is due. -/
theorem number?_countedTo_concat :
    number? (numbering.countedTo (lines ++ [directives]) lines.length) =
      (Directive.targets directives).getLast?.or (number? (numbering.due lines)) := by
  rw [countedTo_concat]
  cases (Directive.targets directives).getLast? with
  | none => rfl
  | some target => exact number?_toNat target

end LineNumbering

/-! ## Going through lines -/

namespace Progress

variable (numbering : LineNumbering) (before : List (List Directive))

/-- At the start there is no history. -/
theorem start_eq_behind : start numbering = behind numbering [] := by
  cases numbering with
  | disabled => rfl
  | «from» first =>
    simp [start, behind, LineNumbering.shownBehind, LineNumbering.due, LineNumbering.countedTo,
      LineNumbering.jumps, LineNumbering.first, LineNumbering.isOn, Directive.switches,
      number?_toNat]

/-- One line more is one line more of history. -/
theorem behind_pass (index : Nat) {line : WordedLine} (known : line.isKnown) :
    (behind numbering before).pass index line.mark line.words =
      (behind numbering (before ++ [line.directives]),
        .ok (.behind numbering before line.mark line.directives)) := by
  have next := numbering.number?_countedTo_concat before line.directives
  have after := bind_successor?_number?
    (numbering.countedTo (before ++ [line.directives]) before.length)
  rw [next, ← numbering.due_concat] at after
  have shown := numbering.shownBehind_concat before line.directives
  rw [pass_known _ _ known, obeyAll_eq]
  simp only [behind, LineNote.behind, next, ← shown, after, List.flatten_append,
    List.flatten_singleton, Directive.switches_append, List.contains_append, List.nil_append,
    Bool.false_or, Bool.or_assoc]

/-- The notes on lines that stand behind the lines `before`. -/
def notesBehind (before : List (List Directive)) : (lines : List WordedLine) → List LineNote
  | [] => []
  | line :: lines =>
    .behind numbering before line.mark line.directives ::
      notesBehind (before ++ [line.directives]) lines

/-- A run over lines comes to what their history says, in state and in notes. -/
theorem passAll_behind (index : Nat) {lines : List WordedLine}
    (known : ∀ line ∈ lines, line.isKnown) :
    (behind numbering before).passAll index lines =
      (behind numbering (before ++ lines.map WordedLine.directives),
        .ok (notesBehind numbering before lines)) := by
  induction lines generalizing before index with
  | nil => simp [passAll, notesBehind]
  | cons line lines ih =>
    obtain ⟨first, others⟩ := List.forall_mem_cons.1 known
    rw [passAll, behind_pass numbering before index first]
    simp only [ih _ _ others]
    simp [notesBehind, Except.map]

end Progress

end CodeListing
