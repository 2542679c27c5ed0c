import Mathlib.Data.List.Induction
import CodeListing.Proofs.History

/-!
# Line numbers over whole runs

Two facts on the numbers of lines that are passed one after the other.  Each line has the number
that it is away from the last jump (`passAll_numbers`), and where no jump goes back, the numbers
that are passed over and the numbers of the lines are all the numbers there are
(`passAll_tile`).
-/

namespace CodeListing

open Directive

/-! ## Notes by their place -/

namespace Progress

variable (numbering : LineNumbering)

/-- The note on a line is what the history up to that line says. -/
theorem getElem?_notesBehind (before : List (List Directive)) (lines : List WordedLine)
    (place : Nat) :
    (notesBehind numbering before lines)[place]? =
      lines[place]?.map fun line =>
        .behind numbering (before ++ (lines.take place).map WordedLine.directives) line.mark
          line.directives := by
  induction lines generalizing before place with
  | nil => rfl
  | cons line lines ih =>
    cases place with
    | zero => simp [notesBehind]
    | succ place => simp [notesBehind, ih]

theorem length_notesBehind (before : List (List Directive)) (lines : List WordedLine) :
    (notesBehind numbering before lines).length = lines.length := by
  induction lines generalizing before with
  | nil => rfl
  | cons line lines ih => rw [notesBehind, List.length_cons, ih, List.length_cons]

/-- Lines of known words are passed, and each has the number and the gaps that its history gives
it. -/
theorem passAll_start (index : Nat) {lines : List WordedLine} {history : List (List Directive)}
    (known : ∀ line ∈ lines, line.isKnown) (same : lines.map WordedLine.directives = history) :
    ∃ notes, (start numbering).passAll index lines = (behind numbering history, .ok notes) ∧
      notes.length = lines.length ∧
      ∀ place note, notes[place]? = some note →
        note.number = (if numbering.showsAt history place then
          number? (numbering.position history place) else none) ∧
        note.skipped.map NumberRange.ends =
          gapEnds (numbering.due (history.take place)) (targets (history.getD place [])) := by
  subst same
  refine ⟨notesBehind numbering [] lines, ?_, length_notesBehind numbering [] lines, ?_⟩
  · rw [start_eq_behind]
    exact passAll_behind numbering [] index known
  · intro place note found
    rw [getElem?_notesBehind, List.nil_append, List.map_take] at found
    obtain ⟨line, here, rfl⟩ := Option.map_eq_some_iff.1 found
    have directives : (lines.map WordedLine.directives)[place]? = some line.directives := by
      rw [List.getElem?_map, here, Option.map_some]
    generalize lines.map WordedLine.directives = history at directives
    obtain ⟨inside, same⟩ := List.getElem?_eq_some_iff.1 directives
    have upTo : history.take place ++ [line.directives] = history.take (place + 1) := by
      rw [← same, List.take_append_getElem]
    have size : (history.take place).length = place := by
      rw [List.length_take]
      omega
    constructor
    · simp only [LineNote.behind, upTo, size]
      rfl
    · rw [List.getD_eq_getElem?_getD, directives]
      exact NumberRange.ends_gaps _ _

/-- **Numbers in closed form.**  The number of a line is the one that it is away from the last jump,
or from the first line if there was none; it is shown if the last directive that switches numbers,
or else the fence, has them on, and if 64 bits hold it.  The number that comes next behind the
lines, and the ends of what is passed over in front of each of them, are the exact ones too: nothing
has wrapped around on the way. -/
theorem passAll_numbers (index : Nat) (lines : List WordedLine)
    (known : ∀ line ∈ lines, line.isKnown) :
    let history := lines.map WordedLine.directives
    ∃ p notes, (start numbering).passAll index lines = (p, .ok notes) ∧
      notes.length = lines.length ∧
      (∀ n, p.next = some n ↔ n.toNat = numbering.due history) ∧
      ∀ place note, notes[place]? = some note →
        (note.number.isSome ↔
          numbering.showsAt history place ∧ numbering.position history place < UInt64.size) ∧
        (∀ n, note.number = some n → n.toNat = numbering.position history place) ∧
        note.skipped.map NumberRange.ends =
          gapEnds (numbering.due (history.take place)) (targets (history.getD place [])) := by
  intro history
  have same : lines.map WordedLine.directives = history := rfl
  clear_value history
  obtain ⟨notes, run, length, each⟩ := passAll_start numbering index known same
  refine ⟨_, notes, run, length, fun n => number?_eq_some_iff, fun place note found => ?_⟩
  obtain ⟨number, skipped⟩ := each place note found
  refine ⟨?_, ?_, skipped⟩
  · rw [number]
    by_cases shown : numbering.showsAt history place
    · have bounded : (number? (numbering.position history place)).isSome ↔
          numbering.position history place < UInt64.size := by
        rw [← not_iff_not, Option.not_isSome_iff_eq_none, number?_eq_none_iff, not_lt]
      simp only [shown, if_true, true_and, bounded]
    · simp [shown]
  · intro n numbered
    rw [number] at numbered
    split at numbered
    · exact number?_eq_some_iff.1 numbered
    · cases numbered

/-- A jump to the last number but one, on a line that is not numbered itself. -/
theorem passAll_numbers_largest :
    let lines : List WordedLine := [
      ⟨.plain, ["line-numbers=18446744073709551614", "no-line-numbers"]⟩,
      ⟨.highlighted, ["Line-Numbers"]⟩, ⟨.plain, []⟩]
    (∀ line ∈ lines, line.isKnown) ∧
      ∃ p notes, (start (.from 7)).passAll 0 lines = (p, .ok notes) ∧ p.next = none ∧
        (∀ note, notes[0]? = some note → note.number = none ∧
          note.skipped.map NumberRange.ends = [(7, 18446744073709551613)]) ∧
        (∀ note, notes[1]? = some note → note.number = some 18446744073709551615) ∧
        ∀ note, notes[2]? = some note → note.number = none := by
  intro lines
  have known : ∀ line ∈ lines, line.isKnown := by decide +kernel
  obtain ⟨p, notes, run, -, next, each⟩ := passAll_numbers (.from 7) 0 lines known
  refine ⟨known, p, notes, run, ?_, fun note found => ?_, fun note found => ?_,
    fun note found => ?_⟩
  · have due : (LineNumbering.from 7).due (lines.map WordedLine.directives) = UInt64.size + 1 := by
      decide +kernel
    refine Option.eq_none_iff_forall_ne_some.2 fun n last => ?_
    have bound : n.toNat < UInt64.size := n.toNat_lt
    have beyond := (next n).1 last
    omega
  · obtain ⟨shown, -, passed⟩ := each 0 note found
    have off : (LineNumbering.from 7).showsAt (lines.map WordedLine.directives) 0 = false := by
      decide +kernel
    refine ⟨Option.not_isSome_iff_eq_none.1 fun some => ?_, passed.trans (by decide +kernel)⟩
    rw [off] at shown
    simpa using shown.1 some
  · obtain ⟨shown, exact', -⟩ := each 1 note found
    have on : (note.number).isSome := shown.2 (by decide +kernel)
    obtain ⟨n, numbered⟩ := Option.isSome_iff_exists.1 on
    have value : n.toNat = (18446744073709551615 : UInt64).toNat :=
      (exact' n numbered).trans (by decide +kernel)
    rw [numbered, UInt64.toNat_inj.1 value]
  · obtain ⟨shown, -, -⟩ := each 2 note found
    have beyond : (LineNumbering.from 7).position (lines.map WordedLine.directives) 2 =
        UInt64.size := by
      decide +kernel
    refine Option.not_isSome_iff_eq_none.1 fun some => ?_
    rw [beyond] at shown
    exact absurd (shown.1 some).2 (Nat.lt_irrefl _)

end Progress

/-! ## Numbers passed over -/

/-- Ranges that meet make one range. -/
theorem range'_append_range' {a b c : Nat} (ab : a ≤ b) (bc : b ≤ c) :
    List.range' a (b - a) ++ List.range' b (c - b) = List.range' a (c - a) := by
  obtain ⟨m, rfl⟩ := Nat.exists_eq_add_of_le ab
  obtain ⟨n, rfl⟩ := Nat.exists_eq_add_of_le bc
  rw [Nat.add_assoc, Nat.add_sub_cancel_left, Nat.add_sub_cancel_left, ← Nat.add_assoc,
    Nat.add_sub_cancel_left, List.range'_append_1]

/-- A gap ends in front of the number that is set. -/
theorem sublist_gapEnds (next : Nat) (targets : List UInt64) :
    ((gapEnds next targets).map (·.2 + 1)).Sublist (targets.map UInt64.toNat) := by
  induction targets generalizing next with
  | nil => exact .slnil
  | cons target targets ih =>
    rw [gapEnds, List.map_append, List.map_cons]
    by_cases ahead : next < target.toNat
    · have last : target.toNat - 1 + 1 = target.toNat := by omega
      rw [if_pos ahead]
      simp only [List.map_cons, List.map_nil, List.cons_append, List.nil_append, last]
      exact (ih target.toNat).cons_cons _
    · rw [if_neg ahead]
      exact (ih target.toNat).cons _

/-- Where no jump goes back, the gaps reach up to the last number that is set. -/
theorem gapEnds_cover {next : Nat} {targets : List UInt64}
    (rising : (next :: targets.map UInt64.toNat).IsChain (· ≤ ·)) :
    let last := (targets.getLast?.map UInt64.toNat).getD next
    next ≤ last ∧
      (gapEnds next targets).flatMap (fun (a, b) => List.range' a (b + 1 - a)) =
        List.range' next (last - next) := by
  induction targets generalizing next with
  | nil => simp [gapEnds]
  | cons target targets ih =>
    obtain ⟨ahead, others⟩ := List.isChain_cons_cons.1 rising
    obtain ⟨upward, cover⟩ := ih others
    have last : ((target :: targets).getLast?.map UInt64.toNat).getD next =
        (targets.getLast?.map UInt64.toNat).getD target.toNat := by
      rw [List.getLast?_cons]
      cases targets.getLast? <;> rfl
    have first : (if next < target.toNat then [(next, target.toNat - 1)] else []).flatMap
        (fun (a, b) => List.range' a (b + 1 - a)) = List.range' next (target.toNat - next) := by
      by_cases strict : next < target.toNat
      · rw [if_pos strict, List.flatMap_singleton]
        simp only [show target.toNat - 1 + 1 - next = target.toNat - next by omega]
      · simp [strict, show target.toNat - next = 0 by omega]
    intro last'
    simp only [last', last]
    refine ⟨by omega, ?_⟩
    rw [gapEnds, List.flatMap_append, first, cover, range'_append_range' ahead upward]

namespace LineNumbering

variable (numbering : LineNumbering)

/-- Line by line, the numbers passed over and then the number of the line. -/
def covered (history : List (List Directive)) : List Nat :=
  (history.mapIdx fun place directives =>
    (gapEnds (numbering.due (history.take place)) (targets directives)).flatMap
      (fun (a, b) => List.range' a (b + 1 - a)) ++ [numbering.position history place]).flatten

/-- One line more covers what its jumps pass over, and its own number. -/
theorem covered_concat (history : List (List Directive)) (directives : List Directive) :
    numbering.covered (history ++ [directives]) =
      numbering.covered history ++
        ((gapEnds (numbering.due history) (targets directives)).flatMap
          (fun (a, b) => List.range' a (b + 1 - a)) ++
        [numbering.countedTo (history ++ [directives]) history.length]) := by
  have earlier : ∀ place < history.length,
      (history ++ [directives]).take place = history.take place ∧
        (history ++ [directives]).take (place + 1) = history.take (place + 1) := by
    intro place inside
    constructor <;> exact List.take_append_of_le_length (by omega)
  unfold covered
  rw [List.mapIdx_concat, List.flatten_append, List.flatten_singleton]
  congr 1
  · congr 1
    refine List.mapIdx_eq_mapIdx_iff.2 fun place inside => ?_
    simp only [position, earlier place inside]
  · have all : (history ++ [directives]).take (history.length + 1) = history ++ [directives] :=
      List.take_of_length_le (by simp)
    simp [position, all]

/-- If no line of a history jumps back, neither does the last one, nor any before it. -/
theorem neverBack_concat {history : List (List Directive)} {directives : List Directive}
    (forward : numbering.NeverBack (history ++ [directives])) :
    numbering.NeverBack history ∧
      (numbering.due history :: (targets directives).map UInt64.toNat).IsChain (· ≤ ·) := by
  constructor
  · intro place inside
    have rising := forward place (by simp; omega)
    rwa [List.take_append_of_le_length (by omega), List.getElem_append_left inside] at rising
  · simpa using forward history.length (by simp)

/-- As long as no line jumps back, what is covered is all from the first number to the one due. -/
theorem covered_eq_range' {history : List (List Directive)}
    (forward : numbering.NeverBack history) :
    numbering.first ≤ numbering.due history ∧
      numbering.covered history =
        List.range' numbering.first (numbering.due history - numbering.first) := by
  induction history using List.reverseRecOn with
  | nil => simp [covered, due, countedTo, jumps]
  | append_singleton history directives ih =>
    obtain ⟨earlier, rising⟩ := numbering.neverBack_concat forward
    obtain ⟨upward, cover⟩ := ih earlier
    obtain ⟨ahead, gaps⟩ := gapEnds_cover rising
    rw [← numbering.countedTo_concat] at ahead gaps
    rw [numbering.due_concat, numbering.covered_concat, cover, gaps]
    generalize numbering.countedTo (history ++ [directives]) history.length = here at *
    refine ⟨by omega, ?_⟩
    have last : [here] = List.range' here (here + 1 - here) := by simp
    rw [← List.append_assoc, range'_append_range' upward ahead, last,
      range'_append_range' (by omega) (by omega)]

/-- The number behind the lines comes after that of the last of them. -/
theorem due_eq_position {history : List (List Directive)} {last : Nat}
    (ends : history.length = last + 1) :
    numbering.due history = numbering.position history last + 1 := by
  have all : history.take (last + 1) = history := List.take_of_length_le (by omega)
  rw [due, position, all, ends]
  exact numbering.countedTo_succ history (by omega)

end LineNumbering

namespace Progress

variable (numbering : LineNumbering)

/-- **Nothing is left out and nothing comes twice.**  What is passed over in front of a line ends
where a directive of the line sets a number.  And where no directive sets a number below the next
one, the numbers passed over and the number of the line, line by line, are all the numbers from the
first on. -/
theorem passAll_tile (index : Nat) (lines : List WordedLine)
    (known : ∀ line ∈ lines, line.isKnown) :
    let history := lines.map WordedLine.directives
    ∃ p notes, (start numbering).passAll index lines = (p, .ok notes) ∧
      notes.length = lines.length ∧
      (∀ place note, notes[place]? = some note →
        note.number = (if numbering.showsAt history place then
          number? (numbering.position history place) else none) ∧
        (∀ r ∈ note.skipped, r.first.toNat ≤ r.last.toNat) ∧
        (note.skipped.map fun r => r.last.toNat + 1).Sublist
          ((targets (history.getD place [])).map UInt64.toNat)) ∧
      (numbering.NeverBack history →
        (notes.mapIdx fun place note =>
            note.skipped.flatMap NumberRange.numbers ++
              [numbering.position history place]).flatten =
          List.range' numbering.first (numbering.due history - numbering.first) ∧
        numbering.first ≤ numbering.due history ∧
        ∀ last, lines.length = last + 1 →
          numbering.due history = numbering.position history last + 1) := by
  intro history
  have same : lines.map WordedLine.directives = history := rfl
  clear_value history
  obtain ⟨notes, run, length, each⟩ := passAll_start numbering index known same
  refine ⟨_, notes, run, length, fun place note found => ⟨?_, fun r _ => ?_, ?_⟩,
    fun forward => ⟨?_, ?_, fun last ends => ?_⟩⟩
  · exact (each place note found).1
  · exact UInt64.le_iff_toNat_le.1 r.first_le_last
  · have ends := sublist_gapEnds (numbering.due (history.take place))
      (targets (history.getD place []))
    rwa [← (each place note found).2, List.map_map] at ends
  · rw [← (numbering.covered_eq_range' forward).2, LineNumbering.covered]
    congr 1
    refine List.ext_getElem (by simp [length, ← same]) fun place inNotes inHistory => ?_
    rw [List.length_mapIdx] at inNotes inHistory
    have skipped := (each place notes[place] (List.getElem?_eq_getElem inNotes)).2
    rw [List.getD_eq_getElem?_getD, List.getElem?_eq_getElem inHistory, Option.getD_some] at skipped
    rw [List.getElem_mapIdx, List.getElem_mapIdx, ← skipped, List.flatMap_map]
    rfl
  · exact (numbering.covered_eq_range' forward).1
  · exact numbering.due_eq_position (by simpa [← same] using ends)

/-- Two jumps on a line that is not numbered, and one on a later line. -/
theorem passAll_tile_jumps :
    let lines : List WordedLine := [
      ⟨.plain, ["line-numbers=5", "LINE-NUMBERS=9", "no-line-numbers"]⟩, ⟨.plain, ["focus"]⟩,
      ⟨.error, ["line-numbers=11", "line-numbers=12"]⟩]
    let history := lines.map WordedLine.directives
    (∀ line ∈ lines, line.isKnown) ∧ (LineNumbering.from 3).NeverBack history ∧
      ∃ p notes, (start (.from 3)).passAll 0 lines = (p, .ok notes) ∧
        (notes.mapIdx fun place note =>
          note.skipped.flatMap NumberRange.numbers ++
            [(LineNumbering.from 3).position history place]).flatten =
          [3, 4, 5, 6, 7, 8, 9, 10, 11, 12] := by
  intro lines history
  have known : ∀ line ∈ lines, line.isKnown := by decide +kernel
  have forward : (LineNumbering.from 3).NeverBack history := by
    unfold LineNumbering.NeverBack
    decide +kernel
  obtain ⟨p, notes, run, -, -, tile⟩ := passAll_tile (.from 3) 0 lines known
  refine ⟨known, forward, p, notes, run, (tile forward).1.trans ?_⟩
  decide +kernel

end Progress

end CodeListing
