import CodeListing.Proofs.Pattern
import CodeListing.Regex

/-!
# Regular expressions that never go back in vain

`Regex.paths` goes back on every choice there is, `Pattern.scan` on none.  `Leads` says that an
expression and a pattern agree nevertheless: where the pattern cannot be scanned there is no path,
and where it can the first path is the one that was scanned.  What makes this composable is that
all other paths are stuck: they leave off in front of a character that nothing which follows can
begin with, so that going back to them is in vain.
-/

namespace CodeListing.Regex

open Pattern (BeginsWith)

variable {α β : Type}

/-! ## What was read from one place to another -/

/-- From `start` on, `cs` was read. -/
structure Moves (cs : List Char) (start stop : Place) : Prop where
  rest : start.rest = cs ++ stop.rest
  before : stop.before = start.before ++ cs

/-- From `start` on, `cs` was read, and nothing was noted. -/
structure Passes (cs : List Char) (start stop : Place) : Prop extends Moves cs start stop where
  groups : stop.groups = start.groups

/-- Nothing, or what `Marks` says. -/
inductive Perhaps (Marks : α → Place → Place → Prop) : Option α → Place → Place → Prop
  | absent {start : Place} : Perhaps Marks none start start
  | present {a : α} {start stop : Place} : Marks a start stop → Perhaps Marks (some a) start stop

/-- What `Marks` says, for one value after the other. -/
inductive Successive (Marks : α → Place → Place → Prop) : List α → Place → Place → Prop
  | done {start : Place} : Successive Marks [] start start
  | step {a : α} {as : List α} {start middle stop : Place} :
      Marks a start middle → Successive Marks as middle stop →
      Successive Marks (a :: as) start stop

theorem Moves.nil (start : Place) : Moves [] start start := ⟨rfl, (List.append_nil _).symm⟩

theorem Moves.append {a b : List Char} {start middle stop : Place} (first : Moves a start middle)
    (second : Moves b middle stop) : Moves (a ++ b) start stop := by
  constructor
  · rw [first.rest, second.rest, List.append_assoc]
  · rw [second.before, first.before, List.append_assoc]

theorem Moves.text {cs : List Char} {start stop : Place} (moves : Moves cs start stop) :
    stop.text = start.text := by
  rw [Place.text, Place.text, moves.rest, moves.before, List.append_assoc]

theorem Passes.nil (start : Place) : Passes [] start start := ⟨.nil start, rfl⟩

theorem Passes.append {a b : List Char} {start middle stop : Place} (first : Passes a start middle)
    (second : Passes b middle stop) : Passes (a ++ b) start stop :=
  ⟨first.toMoves.append second.toMoves, second.groups.trans first.groups⟩

/-- Steps one after the other pass over what they write, in their order. -/
theorem Successive.passes {Marks : α → Place → Place → Prop} (write : α → List Char)
    (passes : ∀ a start stop, Marks a start stop → Passes (write a) start stop) {as : List α}
    {start stop : Place} (steps : Successive Marks as start stop) :
    Passes (as.flatMap write) start stop := by
  induction steps with
  | done => exact .nil _
  | step marks _ ih => exact (passes _ _ _ marks).append ih

theorem Successive.forall {Marks : α → Place → Place → Prop} {P : α → Prop}
    (holds : ∀ a start stop, Marks a start stop → P a) {as : List α} {start stop : Place}
    (steps : Successive Marks as start stop) : ∀ a ∈ as, P a := by
  induction steps with
  | done => exact nofun
  | step marks _ ih => exact List.forall_mem_cons.2 ⟨holds _ _ _ marks, ih⟩

/-! ## Where an expression can begin -/

/-- The expression can be read only where the text is such as it needs. -/
def Needs (ahead : List Char → Prop) (r : Regex) : Prop :=
  ∀ start : Place, ¬ ahead start.rest → r.paths start = []

/-- What an expression needs stands ahead wherever it reads something. -/
theorem Needs.holds {ahead : List Char → Prop} {r : Regex} (needs : Needs ahead r)
    {start stop : Place} {others : List Place} (all : r.paths start = stop :: others) :
    ahead start.rest := by
  by_contra not
  cases all.symm.trans (needs start not)

/-- The expression can be read only where a character of the class follows. -/
def Opens (first : Char → Prop) (r : Regex) : Prop :=
  ∀ start : Place, ¬ BeginsWith first start.rest → r.paths start = []

section Opens

variable {first : Char → Prop} {r : Regex}

theorem Opens.needs (opens : Opens first r) : Needs (BeginsWith first) r := opens

theorem Opens.one (member : Char → Bool) : Opens (member · = true) (one member) := by
  rintro ⟨before, text, groups⟩ not
  cases text with
  | nil => rfl
  | cons c text =>
    rw [paths]
    exact if_neg not

/-- Two expressions begin as the first one does. -/
theorem Opens.seq (opens : Opens first r) (r' : Regex) : Opens first (r.seq r') := by
  intro start not
  rw [paths, opens start not, List.flatMap_nil]

/-- A word begins with its first letter in some case. -/
theorem Opens.word (letters : String) (l : Char) (head : letters.toList.head? = some l) :
    Opens (Text.foldCase · = l) (word letters) := by
  intro start not
  obtain ⟨others, same⟩ := List.head?_eq_some_iff.1 head
  rw [Regex.word, same]
  refine (Opens.one _).seq _ start fun begins => not ?_
  cases rest : start.rest with
  | nil => rw [rest] at begins; exact begins
  | cons c text => rw [rest] at begins; exact beq_iff_eq.1 begins

end Opens

/-! ## Expressions that a pattern leads -/

/-- The search by the expression finds what is scanned by the pattern, `Marks` being what it has
read and noted; wherever else it could leave off, the rest of the text is `stuck`. -/
structure Leads (stuck : List Char → Prop) (r : Regex) (p : Pattern α)
    (Marks : α → Place → Place → Prop) : Prop where
  fails : ∀ start : Place, p.scan start.rest = none → r.paths start = []
  reads : ∀ (start : Place) {a : α} {rest : List Char}, p.scan start.rest = some (a, rest) →
    ∃ stop others, r.paths start = stop :: others ∧ stop.rest = rest ∧ Marks a start stop ∧
      ∀ other ∈ others, stuck other.rest

section Leads

variable {stuck stuck' : List Char → Prop} {first : Char → Prop} {r r' : Regex}
  {p : Pattern α} {next : α → Pattern β}
  {Marks : α → Place → Place → Prop} {Marks' : α → β → Place → Place → Prop}

/-- What is scanned of a text is noted from its beginning on. -/
theorem Leads.exists_marks (lead : Leads stuck r p Marks) {text rest : List Char} {a : α}
    (scanned : p.scan text = some (a, rest)) :
    ∃ stop, stop.rest = rest ∧ Marks a ⟨[], text, fun _ => none⟩ stop := by
  obtain ⟨stop, _, _, left, marks, _⟩ := lead.reads ⟨[], text, fun _ => none⟩ scanned
  exact ⟨stop, left, marks⟩

/-- An expression is led by every pattern that scans the same. -/
theorem Leads.congr {p' : Pattern α} (lead : Leads stuck r p Marks)
    (same : ∀ text, p'.scan text = p.scan text) : Leads stuck r p' Marks where
  fails start scanned := lead.fails start ((same _).symm.trans scanned)
  reads start _ _ scanned := lead.reads start ((same _).symm.trans scanned)

theorem Leads.weaken {Marks' : α → Place → Place → Prop} (lead : Leads stuck r p Marks)
    (wider : ∀ text, stuck text → stuck' text)
    (weaker : ∀ a start stop, Marks a start stop → Marks' a start stop) :
    Leads stuck' r p Marks' where
  fails := lead.fails
  reads start a rest scanned := by
    obtain ⟨stop, others, all, left, marks, dead⟩ := lead.reads start scanned
    exact ⟨stop, others, all, left, weaker _ _ _ marks,
      fun other mem => wider _ (dead other mem)⟩

/-- What the pattern gives may be changed without changing what is read. -/
theorem Leads.map (lead : Leads stuck r p Marks) (f : α → β) :
    Leads stuck r (p >>= fun a => pure (f a))
      fun b start stop => ∃ a, b = f a ∧ Marks a start stop where
  fails start scanned := by
    rw [Pattern.scan_bind] at scanned
    cases found : p.scan start.rest with
    | none => exact lead.fails start found
    | some read => rw [found] at scanned; cases scanned
  reads start b rest scanned := by
    rw [Pattern.scan_bind, Option.bind_eq_some_iff] at scanned
    obtain ⟨⟨a, left⟩, found, made⟩ := scanned
    obtain ⟨rfl, rfl⟩ := Prod.mk.inj (Option.some.inj made)
    obtain ⟨stop, others, all, same, marks, dead⟩ := lead.reads start found
    exact ⟨stop, others, all, same, ⟨a, rfl, marks⟩, dead⟩

/-- One expression after another.  The second one must not fail where the first is not stuck but
the first path was, so either it rejects whatever the first is stuck in front of, or it never
fails. -/
theorem Leads.seq (lead : Leads stuck r p Marks)
    (lead' : ∀ a, Leads stuck' r' (next a) (Marks' a))
    (passes : ∀ place, stuck place.rest →
      ∀ stop ∈ r'.paths place, stuck' stop.rest)
    (rejects : ∀ a text place, (next a).scan text = none → stuck place.rest →
      r'.paths place = []) :
    Leads stuck' (r.seq r') (p >>= next)
      fun b start stop => ∃ a middle, Marks a start middle ∧ Marks' a b middle stop where
  fails start scanned := by
    rw [Pattern.scan_bind] at scanned
    rw [paths]
    cases found : p.scan start.rest with
    | none => rw [lead.fails start found, List.flatMap_nil]
    | some read =>
      obtain ⟨a, rest⟩ := read
      rw [found, Option.bind_some] at scanned
      obtain ⟨middle, others, all, rfl, _, dead⟩ := lead.reads start found
      rw [all, List.flatMap_cons, (lead' a).fails _ scanned, List.nil_append,
        List.flatMap_eq_nil_iff]
      exact fun other mem => rejects a _ other scanned (dead other mem)
  reads start b rest scanned := by
    rw [Pattern.scan_bind, Option.bind_eq_some_iff] at scanned
    obtain ⟨⟨a, left⟩, found, scanned⟩ := scanned
    obtain ⟨middle, others, all, rfl, marks, dead⟩ := lead.reads start found
    obtain ⟨stop, others', all', left, marks', dead'⟩ := (lead' a).reads _ scanned
    refine ⟨stop, others' ++ others.flatMap r'.paths, ?_, left, ⟨a, middle, marks, marks'⟩, ?_⟩
    · rw [paths, all, List.flatMap_cons, all', List.cons_append]
    · intro other mem
      rcases List.mem_append.1 mem with mem | mem
      · exact dead' other mem
      · obtain ⟨via, memVia, mem⟩ := List.mem_flatMap.1 mem
        exact passes via (dead via memVia) other mem

/-- One expression after another that cannot be read where the first one is stuck. -/
theorem Leads.seq_closed (lead : Leads stuck r p Marks)
    (lead' : ∀ a, Leads stuck' r' (next a) (Marks' a))
    (closed : ∀ place : Place, stuck place.rest → r'.paths place = []) :
    Leads stuck' (r.seq r') (p >>= next)
      fun b start stop => ∃ a middle, Marks a start middle ∧ Marks' a b middle stop := by
  refine lead.seq lead' (fun place dead stop mem => ?_) fun _ _ place _ => closed place
  rw [closed place dead] at mem
  cases mem

/-- One expression after another that cannot begin where the first one is stuck. -/
theorem Leads.seq_opens (lead : Leads stuck r p Marks)
    (lead' : ∀ a, Leads stuck' r' (next a) (Marks' a)) (opens : Opens first r')
    (apart : ∀ text, stuck text → ¬ BeginsWith first text) :
    Leads stuck' (r.seq r') (p >>= next)
      fun b start stop => ∃ a middle, Marks a start middle ∧ Marks' a b middle stop :=
  lead.seq_closed lead' fun place dead => opens place (apart _ dead)

/-- One expression after another one that is never stuck. -/
theorem Leads.seq_free (lead : Leads (fun _ => False) r p Marks)
    (lead' : ∀ a, Leads stuck' r' (next a) (Marks' a)) :
    Leads stuck' (r.seq r') (p >>= next)
      fun b start stop => ∃ a middle, Marks a start middle ∧ Marks' a b middle stop :=
  lead.seq lead' (fun _ none => none.elim) (fun _ _ _ _ none => none.elim)

/-- One expression after another, with one behind it that can always be read. -/
theorem Leads.seq_always (lead : Leads stuck r p Marks)
    (lead' : ∀ a, Leads stuck' r' (next a) (Marks' a))
    (always : ∀ a, (next a).Always)
    (passes : ∀ place, stuck place.rest → ∀ stop ∈ r'.paths place, stuck' stop.rest) :
    Leads stuck' (r.seq r') (p >>= next)
      fun b start stop => ∃ a middle, Marks a start middle ∧ Marks' a b middle stop :=
  lead.seq lead' passes (fun a text _ none => absurd none (always a text))

/-- One expression after another behind which nothing follows. -/
theorem Leads.seq_last (lead : Leads stuck r p Marks)
    (lead' : ∀ a, Leads stuck' r' (next a) (Marks' a)) (always : ∀ a, (next a).Always) :
    Leads (fun _ => True) (r.seq r') (p >>= next)
      fun b start stop => ∃ a middle, Marks a start middle ∧ Marks' a b middle stop := by
  have loose (a : α) := (lead' a).weaken (fun _ _ => trivial) fun _ _ _ => id
  exact lead.seq_always loose always fun _ _ _ _ => trivial

/-- A group notes where its expression has begun and ended, and reads nothing more. -/
theorem Leads.capture (lead : Leads stuck r p Marks) (number : Nat) :
    Leads stuck (r.capture number) p
      fun a start stop => ∃ inner, Marks a start inner ∧ stop = inner.close number start where
  fails start scanned := by rw [paths, lead.fails start scanned, List.map_nil]
  reads start a rest scanned := by
    obtain ⟨inner, others, all, left, marks, dead⟩ := lead.reads start scanned
    refine ⟨inner.close number start, others.map (·.close number start), ?_, left,
      ⟨inner, marks, rfl⟩, ?_⟩
    · rw [paths, all, List.map_cons]
    · intro other mem
      obtain ⟨inner', mem', rfl⟩ := List.mem_map.1 mem
      exact dead inner' mem'

theorem paths_optional_of_nil {start : Place} (none : r.paths start = []) :
    (Regex.optional r).paths start = [start] := by
  rw [paths, none, List.nil_append]

/-- An option is led by the optional pattern, if its expression shows at the first character whether
it is there. -/
theorem Leads.optional (lead : Leads stuck r p Marks) (opens : Opens first r) :
    Leads (fun text => stuck text ∨ BeginsWith first text) (optional r) (.optional p)
      (Perhaps Marks) where
  fails start scanned := by
    rw [Pattern.scan_optional] at scanned
    cases found : p.scan start.rest <;> rw [found] at scanned <;> cases scanned
  reads start a rest scanned := by
    rw [Pattern.scan_optional] at scanned
    cases found : p.scan start.rest with
    | none =>
      rw [found] at scanned
      obtain ⟨rfl, rfl⟩ := Prod.mk.inj (Option.some.inj scanned)
      exact ⟨start, [], paths_optional_of_nil (lead.fails start found), rfl, .absent,
        List.forall_mem_nil _⟩
    | some read =>
      rw [found] at scanned
      obtain ⟨rfl, rfl⟩ := Prod.mk.inj (Option.some.inj scanned)
      obtain ⟨stop, others, all, left, marks, dead⟩ := lead.reads start found
      refine ⟨stop, others ++ [start], by rw [paths, all, List.cons_append], left,
        .present marks, ?_⟩
      intro other mem
      rcases List.mem_append.1 mem with mem | mem
      · exact Or.inl (dead other mem)
      · obtain rfl := List.mem_singleton.1 mem
        exact Or.inr (opens.needs.holds all)

end Leads

/-! ## Repetitions -/

theorem paths_many_of_nil {r : Regex} {start : Place} (none : r.paths start = []) :
    (many r).paths start = [start] := by
  rw [paths, repetitions, none, List.flatMap_nil, List.nil_append]

/-- A repetition first goes as far as it can; its other readings end earlier. -/
theorem paths_many_of_cons {r : Regex} {start middle : Place} {others : List Place}
    (all : r.paths start = middle :: others) (shorter : middle.rest.length < start.rest.length)
    (dead : ∀ other ∈ others, r.paths other = []) :
    (many r).paths start = (many r).paths middle ++ (others ++ [start]) := by
  have stay : ∀ other ∈ others, (if other.rest.length < start.rest.length
      then repetitions r.paths other else [other]) = [other] := by
    intro other mem
    have alone := paths_many_of_nil (dead other mem)
    rw [paths] at alone
    rw [alone, ite_self]
  have stays : (others.flatMap fun other => if other.rest.length < start.rest.length
      then repetitions r.paths other else [other]) = others := by
    rw [List.flatMap_def, List.map_congr_left stay, ← List.flatMap_def, List.flatMap_singleton']
  rw [paths, repetitions, all, List.flatMap_cons, if_pos shorter, stays, paths, List.append_assoc]

section Many

variable {stuck ahead : List Char → Prop} {r : Regex} {p : Pattern α}
  {Marks : α → Place → Place → Prop}

/-- Repeating reads first what the pattern reads, and its other readings are stuck. -/
theorem Leads.repeated (lead : Leads stuck r p Marks) (needs : Needs ahead r)
    (apart : ∀ text, stuck text → ¬ ahead text)
    (shorter : ∀ text a rest, p.scan text = some (a, rest) → rest.length < text.length)
    (budget : Nat) (done : List α) (start : Place) (enough : start.rest.length ≤ budget) :
    ∃ as stop others, Pattern.repeated p.scan budget done start.rest =
        (done.reverse ++ as, stop.rest) ∧
      (many r).paths start = stop :: others ∧ Successive Marks as start stop ∧
      ∀ other ∈ others, (stuck other.rest ∨ ahead other.rest) := by
  induction budget generalizing done start with
  | zero =>
    have none : p.scan start.rest = none := by
      refine Option.eq_none_iff_forall_ne_some.2 fun read found => ?_
      have less := shorter _ _ _ found
      omega
    exact ⟨[], start, [], by rw [Pattern.repeated, List.append_nil],
      paths_many_of_nil (lead.fails start none), .done, nofun⟩
  | succ budget ih =>
    rw [Pattern.repeated]
    cases found : p.scan start.rest with
    | none =>
      exact ⟨[], start, [], by rw [List.append_nil], paths_many_of_nil (lead.fails start found),
        .done, nofun⟩
    | some read =>
      obtain ⟨a, rest⟩ := read
      have less := shorter _ _ _ found
      obtain ⟨middle, others, all, rfl, marks, dead⟩ := lead.reads start found
      obtain ⟨as, stop, others', same, all', steps, dead'⟩ :=
        ih (a :: done) middle (by omega)
      have whole := paths_many_of_cons all less
        (fun other mem => needs _ (apart _ (dead other mem)))
      refine ⟨a :: as, stop, others' ++ (others ++ [start]), ?_, ?_, .step marks steps, ?_⟩
      · refine same.trans ?_
        rw [List.reverse_cons, List.append_assoc, List.singleton_append]
      · rw [whole, all', List.cons_append]
      · intro other mem
        rcases List.mem_append.1 mem with mem | mem
        · exact dead' other mem
        · rcases List.mem_append.1 mem with mem | mem
          · exact Or.inl (dead other mem)
          · obtain rfl := List.mem_singleton.1 mem
            exact Or.inr (needs.holds all)

/-- A repetition is led by the repeated pattern, if no reading that ends early can be gone on from.
-/
theorem Leads.many (lead : Leads stuck r p Marks) (needs : Needs ahead r)
    (apart : ∀ text, stuck text → ¬ ahead text)
    (shorter : ∀ text a rest, p.scan text = some (a, rest) → rest.length < text.length) :
    Leads (fun text => stuck text ∨ ahead text) (many r) (.many p)
      (Successive Marks) where
  fails _ scanned := by rw [Pattern.scan_many] at scanned; cases scanned
  reads start as rest scanned := by
    rw [Pattern.scan_many] at scanned
    obtain ⟨as', stop, others, same, all, steps, dead⟩ :=
      lead.repeated needs apart shorter start.rest.length [] start (Nat.le_refl _)
    rw [same] at scanned
    obtain ⟨rfl, rfl⟩ := Prod.mk.inj (Option.some.inj scanned)
    exact ⟨stop, others, all, rfl, steps, dead⟩

end Many

/-! ## Words and runs -/

theorem paths_one_cons {member : Char → Bool} {c : Char} (holds : member c = true)
    (before rest : List Char) (groups : Nat → Option (Nat × Nat)) :
    (one member).paths ⟨before, c :: rest, groups⟩ = [⟨before ++ [c], rest, groups⟩] := by
  rw [paths]
  exact if_pos holds

theorem paths_caseless_cons (l c : Char) (letters before text : List Char)
    (groups : Nat → Option (Nat × Nat)) :
    (caseless (l :: letters)).paths ⟨before, c :: text, groups⟩ =
      if Text.foldCase c = l then (caseless letters).paths ⟨before ++ [c], text, groups⟩
      else [] := by
  rw [caseless, paths, paths]
  by_cases folded : Text.foldCase c = l
  · simp [folded]
  · simp [folded]

theorem paths_caseless_of_none {letters : List Char} {start : Place}
    (none : Pattern.dropCaseless? letters start.rest = none) :
    (caseless letters).paths start = [] := by
  induction letters generalizing start with
  | nil => cases none
  | cons l letters ih =>
    obtain ⟨before, text, groups⟩ := start
    cases text with
    | nil => rfl
    | cons c text =>
      rw [Pattern.dropCaseless?] at none
      rw [paths_caseless_cons]
      by_cases folded : Text.foldCase c = l
      · rw [if_pos folded] at none ⊢
        exact ih none
      · rw [if_neg folded]

/-- A word has one reading, in whatever case it stands there. -/
theorem paths_caseless_of_some {letters rest : List Char} {start : Place}
    (dropped : Pattern.dropCaseless? letters start.rest = some rest) :
    ∃ stop cs, (caseless letters).paths start = [stop] ∧ stop.rest = rest ∧
      cs.map Text.foldCase = letters ∧ Passes cs start stop := by
  induction letters generalizing start with
  | nil =>
    obtain rfl := Option.some.inj dropped
    exact ⟨start, [], rfl, rfl, rfl, .nil start⟩
  | cons l letters ih =>
    obtain ⟨before, text, groups⟩ := start
    cases text with
    | nil => cases dropped
    | cons c text =>
      rw [Pattern.dropCaseless?] at dropped
      rw [paths_caseless_cons]
      by_cases folded : Text.foldCase c = l
      · rw [if_pos folded] at dropped ⊢
        have one : Passes [c] ⟨before, c :: text, groups⟩ ⟨before ++ [c], text, groups⟩ :=
          ⟨⟨rfl, rfl⟩, rfl⟩
        obtain ⟨stop, cs, all, left, same, passes⟩ := @ih ⟨before ++ [c], text, groups⟩ dropped
        exact ⟨stop, c :: cs, all, left, by rw [List.map_cons, folded, same], one.append passes⟩
      · rw [if_neg folded] at dropped
        cases dropped

/-- A word is led by the pattern for it and leaves no choice. -/
theorem Leads.word (letters : String) :
    Leads (fun _ => False) (word letters) (.word letters)
      fun _ start stop => ∃ cs, cs.map Text.foldCase = letters.toList ∧ Passes cs start stop where
  fails start scanned := by
    rw [Pattern.scan_letters, Option.map_eq_none_iff] at scanned
    exact paths_caseless_of_none scanned
  reads start a rest scanned := by
    rw [Pattern.scan_letters, Option.map_eq_some_iff] at scanned
    obtain ⟨rest', dropped, same⟩ := scanned
    obtain ⟨rfl, rfl⟩ := Prod.mk.inj same
    obtain ⟨stop, cs, all, left, folded, passes⟩ := paths_caseless_of_some dropped
    exact ⟨stop, [], all, left, ⟨cs, folded, passes⟩, List.forall_mem_nil _⟩

/-- A sign has no case. -/
theorem Leads.sign (letters : String) (l : Char) (single : letters.toList = [l])
    (noLetter : l.isLower = false) :
    Leads (fun _ => False) (Regex.word letters) (.word letters) fun _ start stop =>
      Passes [l] start stop := by
  refine (Leads.word letters).weaken (fun _ => id) ?_
  rintro _ start stop ⟨cs, folded, passes⟩
  rw [single] at folded
  obtain ⟨c, rfl, same⟩ := List.map_eq_singleton_iff.1 folded
  obtain rfl := Text.eq_of_foldCase same noLetter
  exact passes

/-- A run can only be cut short in front of one of its own characters. -/
theorem paths_many_one (member : Char → Bool) (text before : List Char)
    (groups : Nat → Option (Nat × Nat)) :
    ∃ others, (many (one member)).paths ⟨before, text, groups⟩ =
        ⟨before ++ text.takeWhile member, text.dropWhile member, groups⟩ :: others ∧
      ∀ other ∈ others, BeginsWith (member · = true) other.rest := by
  induction text generalizing before with
  | nil =>
    refine ⟨[], ?_, nofun⟩
    rw [paths_many_of_nil rfl, List.takeWhile_nil, List.dropWhile_nil, List.append_nil]
  | cons c text ih =>
    by_cases holds : member c = true
    · obtain ⟨others, all, dead⟩ := ih (before ++ [c])
      have step := paths_many_of_cons (paths_one_cons holds before text groups) (by simp) nofun
      refine ⟨others ++ [⟨before, c :: text, groups⟩], ?_, ?_⟩
      · rw [step, all, List.takeWhile_cons_of_pos holds, List.dropWhile_cons_of_pos holds]
        simp
      · intro other mem
        rcases List.mem_append.1 mem with mem | mem
        · exact dead other mem
        · obtain rfl := List.mem_singleton.1 mem
          exact holds
    · refine ⟨[], ?_, nofun⟩
      rw [paths_many_of_nil (by rw [paths]; exact if_neg holds),
        List.takeWhile_cons_of_neg holds, List.dropWhile_cons_of_neg holds, List.append_nil]

/-- A run is led by the pattern for it; its shorter readings are stuck within the run. -/
theorem Leads.run (member : Char → Bool) :
    Leads (BeginsWith (member · = true)) (Regex.many (one member)) (.run member)
      fun cs start stop => (∀ c ∈ cs, member c = true) ∧ Passes cs start stop where
  fails _ scanned := by rw [Pattern.scan_run] at scanned; cases scanned
  reads start cs rest scanned := by
    rw [Pattern.scan_run] at scanned
    obtain ⟨rfl, rfl⟩ := Prod.mk.inj (Option.some.inj scanned)
    obtain ⟨before, text, groups⟩ := start
    obtain ⟨others, all, dead⟩ := paths_many_one member text before groups
    have inside := List.all_eq_true.1 (List.all_takeWhile (p := member) (l := text))
    exact ⟨_, others, all, rfl,
      ⟨inside, ⟨List.takeWhile_append_dropWhile.symm, rfl⟩, rfl⟩, dead⟩

/-- A run of at least one character is led by the pattern for it, like any run. -/
theorem Leads.run1 (member : Char → Bool) :
    Leads (BeginsWith (member · = true)) (plus (one member)) (.run1 member)
      fun cs start stop => cs ≠ [] ∧ (∀ c ∈ cs, member c = true) ∧ Passes cs start stop where
  fails start scanned := by
    rw [Pattern.scan_run1_eq_none_iff] at scanned
    exact (Opens.one member).seq _ start scanned
  reads start cs rest scanned := by
    obtain ⟨same, some, inside, outside⟩ := Pattern.scan_run1_eq_some_iff.1 scanned
    obtain ⟨before, text, groups⟩ := start
    obtain rfl : text = cs ++ rest := same
    obtain ⟨c, cs, rfl⟩ := List.exists_cons_of_ne_nil some
    obtain ⟨others, all, dead⟩ := paths_many_one member (cs ++ rest) (before ++ [c]) groups
    refine ⟨⟨before ++ c :: cs, rest, groups⟩, others, ?_, rfl, ⟨some, inside, ⟨rfl, rfl⟩, rfl⟩,
      dead⟩
    rw [plus, paths, List.cons_append, paths_one_cons (inside c List.mem_cons_self),
      List.flatMap_singleton, all]
    obtain ⟨taken, left⟩ :=
      Pattern.run_append (fun d mem => inside d (List.mem_cons_of_mem c mem)) outside
    rw [taken, left, List.append_assoc, List.singleton_append]

/-! ## Searching -/

section Search

variable {stuck : List Char → Prop} {r : Regex} {p : Pattern α} {Marks : α → Place → Place → Prop}
  {attempt : Place → Option Place}

/-- An attempt at a place succeeds where the pattern can be scanned, `Marks` being what has been
read and noted. -/
structure Agrees (attempt : Place → Option Place) (p : Pattern α) (Marks : α → Place → Place → Prop) :
    Prop where
  fails : ∀ start : Place, p.scan start.rest = none → attempt start = none
  reads : ∀ (start : Place) {a : α} {rest : List Char}, p.scan start.rest = some (a, rest) →
    ∃ stop, attempt start = some stop ∧ stop.rest = rest ∧ Marks a start stop

/-- Where the pattern finds nothing, no attempt at any place succeeds. -/
theorem Agrees.firstFrom_of_none (agrees : Agrees attempt p Marks) (text : List Char) :
    ∀ before, p.findFrom before text = none → firstFrom attempt before.reverse text = none := by
  induction text with
  | nil =>
    intro before none
    rw [Pattern.findFrom, Option.map_eq_none_iff] at none
    exact agrees.fails ⟨before.reverse, [], fun _ => Option.none⟩ none
  | cons c text ih =>
    intro before none
    rw [Pattern.findFrom] at none
    cases scanned : p.scan (c :: text) with
    | some read => rw [scanned] at none; cases none
    | none =>
      rw [scanned] at none
      have fails := agrees.fails ⟨before.reverse, c :: text, fun _ => Option.none⟩ scanned
      have next := ih (c :: before) none
      rw [List.reverse_cons] at next
      rw [firstFrom, fails]
      exact next

/-- Where the pattern finds something, the attempt there is the first that succeeds. -/
theorem Agrees.firstFrom_of_some (agrees : Agrees attempt p Marks) {a : α} {front : List Char}
    (text : List Char) : ∀ before, p.findFrom before text = some (front, a) →
      ∃ behind stop, before.reverse ++ text = front ++ behind ∧
        p.scan behind = some (a, stop.rest) ∧ firstFrom attempt before.reverse text = some stop ∧
        Marks a ⟨front, behind, fun _ => none⟩ stop := by
  induction text with
  | nil =>
    intro before found
    rw [Pattern.findFrom, Option.map_eq_some_iff] at found
    obtain ⟨⟨a', rest⟩, scanned, same⟩ := found
    obtain ⟨rfl, rfl⟩ := Prod.mk.inj same
    obtain ⟨stop, reached, rfl, marks⟩ := agrees.reads ⟨before.reverse, [], fun _ => none⟩ scanned
    exact ⟨[], stop, rfl, scanned, reached, marks⟩
  | cons c text ih =>
    intro before found
    rw [Pattern.findFrom] at found
    cases scanned : p.scan (c :: text) with
    | none =>
      rw [scanned] at found
      have fails := agrees.fails ⟨before.reverse, c :: text, fun _ => none⟩ scanned
      have next := ih (c :: before) found
      rw [List.reverse_cons, List.append_assoc, List.singleton_append] at next
      rw [firstFrom, fails]
      exact next
    | some read =>
      obtain ⟨a', rest⟩ := read
      rw [scanned] at found
      obtain ⟨rfl, rfl⟩ := Prod.mk.inj (Option.some.inj found)
      obtain ⟨stop, reached, rfl, marks⟩ :=
        agrees.reads ⟨before.reverse, c :: text, fun _ => none⟩ scanned
      exact ⟨c :: text, stop, rfl, scanned, by rw [firstFrom, reached], marks⟩

/-- The first of the attempts finds what is found with the pattern. -/
theorem Agrees.first (agrees : Agrees attempt p Marks) (text : List Char) :
    (p.find? text = none → firstFrom attempt [] text = none) ∧
    ∀ before a, p.find? text = some (before, a) →
      ∃ behind stop, text = before ++ behind ∧ p.scan behind = some (a, stop.rest) ∧
        firstFrom attempt [] text = some stop ∧ Marks a ⟨before, behind, fun _ => none⟩ stop :=
  ⟨agrees.firstFrom_of_none text [], fun _ _ => agrees.firstFrom_of_some text []⟩

theorem searchFrom_eq_firstFrom (r : Regex) (before text : List Char) :
    r.searchFrom before text = firstFrom (fun start => (r.paths start).head?) before text := by
  induction text generalizing before with
  | nil => rfl
  | cons c text ih =>
    rw [searchFrom, firstFrom, ih]

/-- The first reading of an expression is the one that the pattern scans. -/
theorem Leads.agrees (lead : Leads stuck r p Marks) :
    Agrees (fun start => (r.paths start).head?) p Marks where
  fails start scanned := by rw [lead.fails start scanned, List.head?_nil]
  reads start a rest scanned := by
    obtain ⟨stop, others, all, left, marks, -⟩ := lead.reads start scanned
    exact ⟨stop, by rw [all, List.head?_cons], left, marks⟩

/-- **The search by an expression finds what is found with the pattern that leads it.** -/
theorem Leads.search? (lead : Leads stuck r p Marks) (text : List Char) :
    (p.find? text = none → r.search? text = none) ∧
    ∀ before a, p.find? text = some (before, a) →
      ∃ behind stop, text = before ++ behind ∧ p.scan behind = some (a, stop.rest) ∧
        r.search? text = some stop ∧ Marks a ⟨before, behind, fun _ => none⟩ stop := by
  rw [Regex.search?, searchFrom_eq_firstFrom]
  exact lead.agrees.first text

/-! ## Up to the end of a line -/

/-- The longest run up to the end of a line is the one that is scanned. -/
theorem find?_paths_many_one {member : Char → Bool} (newline : member '\n' = true)
    (text before : List Char) (groups : Nat → Option (Nat × Nat)) :
    (((many (one member)).paths ⟨before, text, groups⟩).find? Place.endsLine).map
        (fun stop => (stop.rest, stop.text, stop.groups)) =
      ((Pattern.lineEnd member).scan text).map fun read => (read.2, before ++ text, groups) := by
  induction text generalizing before with
  | nil =>
    rw [paths_many_of_nil rfl]
    rfl
  | cons c text ih =>
    rw [Pattern.scan_lineEnd_cons]
    by_cases holds : member c = true
    · rw [paths_many_of_cons (paths_one_cons holds before text groups) (by simp) nofun,
        List.nil_append, List.find?_append, Option.map_or, ih, if_pos holds, Option.map_or,
        List.append_assoc, List.singleton_append]
      congr 1
      by_cases ends : c = '\n' <;> simp [Place.endsLine, Place.text, ends]
    · have other : c ≠ '\n' := fun same => holds (same ▸ newline)
      rw [paths_many_of_nil (by rw [paths]; exact if_neg holds), if_neg holds]
      simp [Place.endsLine, other]

/-- A group that holds an expression which is never stuck and a run behind it, up to the end of a
line. -/
theorem Leads.agrees_line (lead : Leads (fun _ => False) r p Marks) {member : Char → Bool}
    (newline : member '\n' = true) (number : Nat) :
    Agrees
      (fun start =>
        ((Regex.capture number (r.seq (Regex.many (one member)))).paths start).find?
          Place.endsLine)
      (p >>= fun a => .lineEnd member >>= fun _ => pure a)
      fun a start stop => ∃ middle inner : Place, Marks a start middle ∧ inner.text = middle.text ∧
        inner.groups = middle.groups ∧ stop = inner.close number start where
  fails start scanned := by
    rw [paths, paths, List.find?_map, Option.map_eq_none_iff]
    rw [Pattern.scan_bind] at scanned
    cases found : p.scan start.rest with
    | none => rw [lead.fails start found, List.flatMap_nil, List.find?_nil]
    | some read =>
      obtain ⟨a, rest⟩ := read
      obtain ⟨middle, others, all, rfl, _, dead⟩ := lead.reads start found
      obtain rfl := List.eq_nil_iff_forall_not_mem.2 dead
      simp only [found, Option.bind_some, Pattern.scan_bind, Option.bind_eq_none_iff] at scanned
      have none : (Pattern.lineEnd member).scan middle.rest = none :=
        Option.eq_none_iff_forall_ne_some.2 fun read here => nomatch scanned read here
      have run := find?_paths_many_one newline middle.rest middle.before middle.groups
      rw [none, Option.map_none, Option.map_eq_none_iff] at run
      rw [all, List.flatMap_singleton]
      exact run
  reads start a rest scanned := by
    rw [Pattern.scan_bind, Option.bind_eq_some_iff] at scanned
    obtain ⟨⟨a', left⟩, found, ended⟩ := scanned
    simp only [Pattern.scan_bind, Option.bind_eq_some_iff] at ended
    obtain ⟨⟨⟨⟩, left'⟩, ended, made⟩ := ended
    obtain ⟨rfl, rfl⟩ := Prod.mk.inj (Option.some.inj made)
    obtain ⟨middle, others, all, rfl, marks, dead⟩ := lead.reads start found
    obtain rfl := List.eq_nil_iff_forall_not_mem.2 dead
    have run := find?_paths_many_one newline middle.rest middle.before middle.groups
    rw [ended, Option.map_some, Option.map_eq_some_iff] at run
    obtain ⟨inner, reached, same⟩ := run
    simp only [Prod.mk.injEq] at same
    obtain ⟨same, text, groups⟩ := same
    refine ⟨inner.close number start, ?_, same, middle, inner, marks, text, groups, rfl⟩
    rw [paths, paths, all, List.flatMap_singleton, List.find?_map]
    exact congrArg (Option.map (·.close number start)) reached

end Search

end CodeListing.Regex
