import CodeListing.Line.Mark
import CodeListing.Proofs.History

/-!
# Which mark prevails

Every directive looks only at the mark that it finds (`LineMark.after_eq`), but what comes of all of
them can be said of the list as a whole: `afterAll_prevails`.  So only the directives that ask for a
mark count, and unless both marks of a difference are asked for, their order does not.
-/

namespace CodeListing

namespace LineMark

/-! ## One mark on top of another -/

/-- The mark that is left of two, of which the first is there when the second is asked for. -/
def join (mark other : LineMark) : LineMark :=
  if mark.isDiff then mark
  else if other.isDiff then other
  else if mark.strength ≤ other.strength then other else mark

/-- A directive that asks for no mark leaves the mark alone. -/
theorem after_eq (mark : LineMark) (directive : Directive) :
    mark.after directive = directive.mark?.elim mark mark.join := by
  cases directive <;> cases mark <;> rfl

/-- The marks that are asked for are joined one after the other. -/
theorem afterAll_eq (mark : LineMark) (directives : List Directive) :
    mark.afterAll directives = (Directive.marks directives).foldl join mark := by
  induction directives generalizing mark with
  | nil => rfl
  | cons directive directives ih =>
    have step : mark.afterAll (directive :: directives) =
        (mark.after directive).afterAll directives := rfl
    rw [step, ih, after_eq]
    cases asked : directive.mark? <;> simp [Directive.marks, asked]

/-- A line that has been added or removed stays so. -/
theorem join_of_isDiff {mark : LineMark} (diff : mark.isDiff = true) (other : LineMark) :
    mark.join other = mark := by
  rw [join, if_pos diff]

/-- Any other mark gives way to one of a difference. -/
theorem join_diff {mark other : LineMark} (plain : mark.isDiff = false)
    (diff : other.isDiff = true) : mark.join other = other := by
  simp [join, plain, diff]

/-- Of two marks that are none of a difference, the stronger one is left. -/
theorem join_plain {mark other : LineMark} (plain : mark.isDiff = false)
    (plain' : other.isDiff = false) :
    (mark.join other).isDiff = false ∧ (mark.join other = mark ∨ mark.join other = other) ∧
      mark.strength ≤ (mark.join other).strength ∧
      other.strength ≤ (mark.join other).strength := by
  simp only [join, plain, plain', Bool.false_eq_true, if_false]
  split
  · next weaker => exact ⟨plain', .inr rfl, weaker, Nat.le_refl _⟩
  · next stronger => exact ⟨plain, .inl rfl, Nat.le_refl _, Nat.le_of_not_le stronger⟩

/-! ## All marks -/

/-- A mark of a difference is not given up. -/
theorem Prevails.of_isDiff {first mark : LineMark} {others : List LineMark}
    (diff : first.isDiff = true) (prevails : Prevails first others mark) : mark = first := by
  cases prevails with
  | kept => rfl
  | diff plain => exact absurd diff (Bool.eq_false_iff.1 plain)
  | strongest plain => exact absurd diff (Bool.eq_false_iff.1 plain)

/-- One mark more, asked for before the others. -/
theorem Prevails.cons {first next mark : LineMark} {others : List LineMark}
    (prevails : Prevails (first.join next) others mark) : Prevails first (next :: others) mark := by
  cases diff : first.isDiff with
  | true =>
    rw [join_of_isDiff diff] at prevails
    obtain rfl := prevails.of_isDiff diff
    exact .kept diff
  | false =>
    cases diff' : next.isDiff with
    | true =>
      rw [join_diff diff diff'] at prevails
      obtain rfl := prevails.of_isDiff diff'
      exact .diff diff (List.find?_cons_of_pos diff')
    | false =>
      obtain ⟨plain, either, le, le'⟩ := join_plain diff diff'
      cases prevails with
      | kept diff => exact absurd diff (Bool.eq_false_iff.1 plain)
      | diff _ found =>
        refine .diff diff ?_
        rwa [List.find?_cons_of_neg (Bool.eq_false_iff.1 diff')]
      | strongest _ plain' member greatest =>
        refine .strongest diff (List.forall_mem_cons.2 ⟨diff', plain'⟩) ?_ ?_
        · rcases List.mem_cons.1 member with rfl | later
          · rcases either with same | same <;> rw [same] <;> simp
          · exact List.mem_cons_of_mem _ (List.mem_cons_of_mem _ later)
        · obtain ⟨joined, rest⟩ := List.forall_mem_cons.1 greatest
          exact List.forall_mem_cons.2 ⟨Nat.le_trans le joined,
            List.forall_mem_cons.2 ⟨Nat.le_trans le' joined, rest⟩⟩

/-- Joining marks one after the other comes to the one that prevails. -/
theorem prevails_foldl (first : LineMark) (others : List LineMark) :
    Prevails first others (others.foldl join first) := by
  induction others generalizing first with
  | nil =>
    cases diff : first.isDiff with
    | true => exact .kept diff
    | false => exact .strongest diff (by simp) (by simp) (by simp)
  | cons next others ih => exact (ih (first.join next)).cons

/-- The mark behind all directives is the one that prevails of those they ask for. -/
theorem prevails_afterAll (mark : LineMark) (directives : List Directive) :
    Prevails mark (Directive.marks directives) (mark.afterAll directives) := by
  rw [afterAll_eq]
  exact prevails_foldl mark _

/-- Marks that are no difference are told apart by their strength. -/
theorem eq_of_strength {mark other : LineMark} (plain : mark.isDiff = false)
    (plain' : other.isDiff = false) (same : mark.strength = other.strength) : mark = other := by
  cases mark <;> cases other <;> simp_all [isDiff, strength]

/-- If the same marks are asked for, in any order, the same mark prevails, unless they begin with
different marks of a difference. -/
theorem Prevails.eq {first mark mark' : LineMark} {others others' : List LineMark}
    (prevails : Prevails first others mark) (prevails' : Prevails first others' mark')
    (same : ∀ other, other ∈ others ↔ other ∈ others')
    (agree : ∀ diff, others.find? isDiff = some diff → ∀ diff', others'.find? isDiff = some diff' →
      diff = diff') : mark = mark' := by
  cases prevails with
  | kept diff => exact (prevails'.of_isDiff diff).symm
  | diff plain found =>
    cases prevails' with
    | kept diff => exact absurd diff (Bool.eq_false_iff.1 plain)
    | diff _ found' => exact agree mark found mark' found'
    | strongest _ none =>
      have absent := none mark ((same mark).1 (List.mem_of_find?_eq_some found))
      exact absurd (List.find?_some found) (Bool.eq_false_iff.1 absent)
  | strongest plain none member greatest =>
    cases prevails' with
    | kept diff => exact absurd diff (Bool.eq_false_iff.1 plain)
    | diff _ found' =>
      have absent := none mark' ((same mark').2 (List.mem_of_find?_eq_some found'))
      exact absurd (List.find?_some found') (Bool.eq_false_iff.1 absent)
    | strongest _ _ member' greatest' =>
      have all : ∀ other, other ∈ first :: others ↔ other ∈ first :: others' := by
        intro other
        rw [List.mem_cons, List.mem_cons, same]
      have plainAll : ∀ other ∈ first :: others, other.isDiff = false :=
        List.forall_mem_cons.2 ⟨plain, none⟩
      have member'' := (all mark').2 member'
      refine eq_of_strength (plainAll mark member) (plainAll mark' member'')
        (Nat.le_antisymm ?_ ?_)
      · exact greatest' mark ((all mark).1 member)
      · exact greatest mark' member''

/-- Only one mark prevails. -/
theorem Prevails.unique {first mark mark' : LineMark} {others : List LineMark}
    (prevails : Prevails first others mark) (prevails' : Prevails first others mark') :
    mark = mark' :=
  prevails.eq prevails' (fun _ => Iff.rfl) fun _ found _ found' =>
    Option.some.inj (found.symm.trans found')

/-! ## Directives and words -/

theorem of_mark?_isDiff {directive : Directive} {mark : LineMark}
    (asked : directive.mark? = some mark) (diff : mark.isDiff = true) :
    directive = .added ∧ mark = .added ∨ directive = .removed ∧ mark = .removed := by
  cases directive <;> cases asked <;> simp_all [isDiff]

/-- Unless both marks of a difference are asked for, there is only one that can be found. -/
theorem eq_of_isDiff {directives : List Directive}
    (one : ¬ (.added ∈ directives ∧ .removed ∈ directives)) {mark mark' : LineMark}
    (member : mark ∈ Directive.marks directives) (diff : mark.isDiff = true)
    (member' : mark' ∈ Directive.marks directives) (diff' : mark'.isDiff = true) :
    mark = mark' := by
  obtain ⟨directive, among, asked⟩ := List.mem_filterMap.1 member
  obtain ⟨directive', among', asked'⟩ := List.mem_filterMap.1 member'
  rcases of_mark?_isDiff asked diff with ⟨rfl, rfl⟩ | ⟨rfl, rfl⟩ <;>
    rcases of_mark?_isDiff asked' diff' with ⟨rfl, rfl⟩ | ⟨rfl, rfl⟩
  · rfl
  · exact absurd ⟨among, among'⟩ one
  · exact absurd ⟨among', among⟩ one
  · rfl

theorem marks_filter (directives : List Directive) :
    Directive.marks (directives.filter (·.mark?.isSome)) = Directive.marks directives := by
  rw [Directive.marks, Directive.marks, List.filterMap_filter]
  refine List.filterMap_congr fun directive _ => ?_
  cases directive.mark? <;> rfl

/-- In which order directives stand does not matter, unless both differences are asked for. -/
theorem afterAll_of_perm {mark : LineMark} {directives others : List Directive}
    (one : ¬ (.added ∈ directives ∧ .removed ∈ directives)) (perm : others.Perm directives) :
    mark.afterAll others = mark.afterAll directives := by
  have same (other : LineMark) :
      other ∈ Directive.marks others ↔ other ∈ Directive.marks directives :=
    (perm.filterMap Directive.mark?).mem_iff
  refine (mark.prevails_afterAll others).eq (mark.prevails_afterAll directives) same ?_
  intro diff found diff' found'
  exact eq_of_isDiff one ((same diff).1 (List.mem_of_find?_eq_some found)) (List.find?_some found)
    (List.mem_of_find?_eq_some found') (List.find?_some found')

end LineMark

/-- A line of words that stand for directives is passed, with the mark that they leave. -/
theorem Progress.mark_of_pass (p : Progress) (index : Nat) (mark : LineMark)
    {words : List String} {directives : List Directive}
    (read : words.map Directive.ofText? = directives.map some) :
    ∃ p' note, p.pass index mark words = (p', .ok note) ∧
      note.mark = mark.afterAll directives := by
  obtain ⟨known, obeyed⟩ := WordedLine.known_of_read mark read
  have passed := p.pass_known index known
  rw [obeyed, obeyAll_eq] at passed
  exact ⟨_, _, passed, rfl⟩

namespace LineMark

/-- **The mark that prevails.**  Directives that are obeyed one after the other leave the mark that
prevails of all that they ask for.  A line of words that stand for them gets this mark, whatever is
carried to the line.  Directives that ask for no mark do not count, and neither does the order,
unless both marks of a difference are asked for. -/
theorem afterAll_prevails (mark : LineMark) (directives : List Directive) :
    (∀ m, mark.afterAll directives = m ↔ Prevails mark (Directive.marks directives) m) ∧
      (∀ (p : Progress) index words, words.map Directive.ofText? = directives.map some →
        ∃ p' note, p.pass index mark words = (p', .ok note) ∧
          note.mark = mark.afterAll directives) ∧
      mark.afterAll (directives.filter (·.mark?.isSome)) = mark.afterAll directives ∧
      (¬ (.added ∈ directives ∧ .removed ∈ directives) →
        ∀ others : List Directive, others.Perm directives →
          mark.afterAll others = mark.afterAll directives) := by
  have prevails := mark.prevails_afterAll directives
  refine ⟨fun m => ⟨fun same => same ▸ prevails, prevails.unique⟩, ?_, ?_, ?_⟩
  · exact fun p index words read => p.mark_of_pass index mark read
  · rw [afterAll_eq, afterAll_eq, marks_filter]
  · exact fun one others perm => afterAll_of_perm one perm

/-- A line that is added, and the same directives the other way round. -/
theorem afterAll_prevails_reversed :
    let directives : List Directive := [.warning, .focus, .added, .error, .numbered (some 4)]
    let words := ["Warning", "focus", "++", "error", "line-numbers=04"]
    words.map Directive.ofText? = directives.map some ∧
      ¬ (.added ∈ directives ∧ .removed ∈ directives) ∧
      (∃ p' note, (Progress.start .disabled).pass 0 .highlighted words = (p', .ok note) ∧
        note.mark = .added) ∧
      afterAll .highlighted directives.reverse = .added := by
  intro directives words
  have read : words.map Directive.ofText? = directives.map some := by decide +kernel
  have one : ¬ (.added ∈ directives ∧ .removed ∈ directives) := by decide
  obtain ⟨prevails, passes, -, shuffled⟩ := afterAll_prevails .highlighted directives
  have added : afterAll .highlighted directives = .added := (prevails .added).2 (.diff rfl rfl)
  obtain ⟨p', note, passed, mark⟩ := passes (.start .disabled) 0 words read
  exact ⟨read, one, ⟨p', note, passed, mark.trans added⟩,
    (shuffled one _ (List.reverse_perm directives)).trans added⟩

end LineMark

end CodeListing
