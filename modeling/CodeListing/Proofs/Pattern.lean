import Mathlib.Data.List.TakeDrop
import CodeListing.Pattern

/-!
# What patterns scan

For each way to put a pattern together, what is scanned of a text that is known, and where nothing
can be scanned.  A pattern that can be scanned exactly where a character of a class follows is found
at the first character of the class (`Starts.findFrom_eq_some_iff`).
-/

namespace CodeListing.Pattern

variable {α β : Type}

/-- The text goes on with a character of the class. -/
def BeginsWith (first : Char → Prop) : (text : List Char) → Prop
  | [] => False
  | c :: _ => first c

@[simp]
theorem beginsWith_cons (first : Char → Prop) (c : Char) (text : List Char) :
    BeginsWith first (c :: text) ↔ first c := Iff.rfl

theorem not_beginsWith_cons {first : Char → Prop} {c : Char} (not : ¬ first c)
    (text : List Char) : ¬ BeginsWith first (c :: text) := not

theorem not_beginsWith_iff {first : Char → Prop} {text : List Char} :
    ¬ BeginsWith first text ↔ ∀ c ∈ text.head?, ¬ first c := by
  cases text <;> simp [BeginsWith]

/-- A text cannot begin in two ways that have no character in common. -/
theorem BeginsWith.apart {first first' : Char → Prop} (apart : ∀ c, first c → ¬ first' c)
    {text : List Char} (begins : BeginsWith first text) : ¬ BeginsWith first' text := by
  cases text with
  | nil => exact begins.elim
  | cons c text => exact apart c begins

/-! ## What each form scans -/

theorem scan_pure (a : α) (text : List Char) : (pure a : Pattern α).scan text = some (a, text) :=
  rfl

/-- The second pattern goes on where the first has ended. -/
theorem scan_bind (p : Pattern α) (next : α → Pattern β) (text : List Char) :
    (p >>= next).scan text = (p.scan text).bind fun (a, rest) => (next a).scan rest := by
  change (Pattern.bind p next).scan text = _
  rw [scan]
  cases p.scan text with
  | none => rfl
  | some read => rfl

theorem scan_run (member : Char → Bool) (text : List Char) :
    (run member).scan text = some (text.takeWhile member, text.dropWhile member) :=
  congrArg some (List.span_eq_takeWhile_dropWhile member text)

/-- A run takes all it can, and that has to be something. -/
theorem scan_run1 (member : Char → Bool) (text : List Char) :
    (run1 member).scan text = if text.takeWhile member = [] then none
      else some (text.takeWhile member, text.dropWhile member) := by
  rw [scan, List.span_eq_takeWhile_dropWhile]
  cases text.takeWhile member <;> rfl

theorem scan_letters (letters : String) (text : List Char) :
    (word letters).scan text = (dropCaseless? letters.toList text).map ((), ·) := rfl

theorem scan_optional (p : Pattern α) (text : List Char) :
    (optional p).scan text = match p.scan text with
      | some (a, rest) => some (some a, rest)
      | none => some (none, text) := rfl

theorem scan_many (p : Pattern α) (text : List Char) :
    (many p).scan text = some (repeated p.scan text.length [] text) := rfl

theorem scan_lineEnd (member : Char → Bool) (text : List Char) :
    (lineEnd member).scan text = match text.span member with
      | (_, []) => some ((), [])
      | (cs, rest) =>
        if cs.contains '\n' then
          some ((), '\n' :: (cs.reverse.takeWhile (· != '\n')).reverse ++ rest)
        else none := rfl

/-! ## One pattern after another -/

theorem scan_bind_of_some {p : Pattern α} {next : α → Pattern β} {text rest : List Char} {a : α}
    (scanned : p.scan text = some (a, rest)) : (p >>= next).scan text = (next a).scan rest := by
  rw [scan_bind, scanned, Option.bind_some]

theorem scan_bind_assoc {γ : Type} (p : Pattern α) (q : α → Pattern β) (k : α → β → Pattern γ)
    (text : List Char) :
    (p >>= fun a => q a >>= fun b => k a b).scan text =
      ((p >>= fun a => q a >>= fun b => pure (a, b)) >>= fun ab => k ab.1 ab.2).scan text := by
  simp only [scan_bind, scan_pure]
  cases p.scan text with
  | none => rfl
  | some read =>
    obtain ⟨a, rest⟩ := read
    cases found : (q a).scan rest <;> simp [found]

/-! ## Options and repetitions -/

theorem scan_optional_of_none {p : Pattern α} {text : List Char} (none : p.scan text = none) :
    (Pattern.optional p).scan text = some (Option.none, text) := by
  rw [scan_optional, none]

theorem scan_optional_of_some {p : Pattern α} {text rest : List Char} {a : α}
    (scanned : p.scan text = some (a, rest)) :
    (Pattern.optional p).scan text = some (some a, rest) := by
  rw [scan_optional, scanned]

theorem repeated_of_none {step : List Char → Option (α × List Char)} {text : List Char}
    (none : step text = none) (budget : Nat) (done : List α) :
    repeated step budget done text = (done.reverse, text) := by
  cases budget with
  | zero => rfl
  | succ budget => rw [repeated, none]

/-- The pattern can be scanned everywhere. -/
def Always (p : Pattern α) : Prop := ∀ text, p.scan text ≠ none

theorem always_pure (a : α) : Always (pure a) := fun _ => nofun

/-- An option reads something anywhere, if only the empty text. -/
theorem always_optional (p : Pattern α) : Always (.optional p) := by
  intro text
  rw [scan_optional]
  cases p.scan text <;> exact nofun

theorem always_many (p : Pattern α) : Always (.many p) := by
  intro text
  rw [scan_many]
  exact nofun

theorem Always.bind {p : Pattern α} {next : α → Pattern β} (always : Always p)
    (always' : ∀ a, Always (next a)) : Always (p >>= next) := by
  intro text
  rw [scan_bind]
  cases found : p.scan text with
  | none => exact absurd found (always text)
  | some read => exact always' read.1 read.2

/-! ## Words -/

/-- A word is dropped off the front in whatever case it stands there. -/
theorem dropCaseless?_append {letters cs : List Char} (folded : cs.map Text.foldCase = letters)
    (rest : List Char) : dropCaseless? letters (cs ++ rest) = some rest := by
  subst folded
  induction cs with
  | nil => rfl
  | cons c cs ih => rw [List.map_cons, List.cons_append, dropCaseless?, if_pos rfl, ih]

/-- A word is read in whatever case it stands there. -/
theorem scan_word {letters : String} {cs : List Char}
    (folded : cs.map Text.foldCase = letters.toList) (rest : List Char) :
    (word letters).scan (cs ++ rest) = some ((), rest) := by
  rw [scan_letters, dropCaseless?_append folded]
  rfl

theorem scan_sign {letters : String} {c : Char} (single : letters.toList = [c])
    (plain : Text.foldCase c = c) (rest : List Char) :
    (word letters).scan (c :: rest) = some ((), rest) := by
  have folded : [c].map Text.foldCase = letters.toList := by
    rw [single, List.map_singleton, plain]
  exact scan_word folded rest

/-- A word is not read where its first letter is missing. -/
theorem scan_word_eq_none {letters : String} {l : Char} (head : letters.toList.head? = some l)
    {text : List Char} (other : ¬ BeginsWith (Text.foldCase · = l) text) :
    (word letters).scan text = none := by
  obtain ⟨others, same⟩ := List.head?_eq_some_iff.1 head
  rw [scan_letters, same, Option.map_eq_none_iff]
  cases text with
  | nil => rfl
  | cons c text =>
    have differ : Text.foldCase c ≠ l := other
    rw [dropCaseless?, if_neg differ]

/-! ## Runs -/

section Run

variable {member : Char → Bool}

/-- A run ends where a character stands that is not in it. -/
theorem run_append {cs rest : List Char} (inside : ∀ c ∈ cs, member c = true)
    (outside : ¬ BeginsWith (member · = true) rest) :
    (cs ++ rest).takeWhile member = cs ∧ (cs ++ rest).dropWhile member = rest := by
  rw [List.takeWhile_append_of_pos inside, List.dropWhile_append_of_pos inside]
  cases rest with
  | nil => exact ⟨List.append_nil cs, rfl⟩
  | cons c rest =>
    have not : ¬ member c = true := outside
    rw [List.takeWhile_cons_of_neg not, List.dropWhile_cons_of_neg not, List.append_nil]
    exact ⟨rfl, rfl⟩

theorem not_beginsWith_dropWhile (text : List Char) :
    ¬ BeginsWith (member · = true) (text.dropWhile member) := by
  have not := List.head?_dropWhile_not member text
  cases rest : text.dropWhile member with
  | nil => exact id
  | cons c rest' =>
    rw [rest, List.head?_cons] at not
    exact Bool.not_eq_true _ ▸ not

/-- All that belongs to a run is read if what follows does not belong to it. -/
theorem scan_run_append {cs rest : List Char} (inside : ∀ c ∈ cs, member c = true)
    (outside : ¬ BeginsWith (member · = true) rest) :
    (run member).scan (cs ++ rest) = some (cs, rest) := by
  obtain ⟨taken, left⟩ := run_append inside outside
  rw [scan_run, taken, left]

/-- What a run reads belongs to it, is something, and cannot go on. -/
theorem scan_run1_eq_some_iff {text cs rest : List Char} :
    (run1 member).scan text = some (cs, rest) ↔
      text = cs ++ rest ∧ cs ≠ [] ∧ (∀ c ∈ cs, member c = true) ∧
        ¬ BeginsWith (member · = true) rest := by
  rw [scan_run1]
  constructor
  · intro found
    split at found
    · cases found
    · next some =>
      obtain ⟨rfl, rfl⟩ := Prod.mk.inj (Option.some.inj found)
      exact ⟨List.takeWhile_append_dropWhile.symm, some, List.all_eq_true.1 List.all_takeWhile,
        not_beginsWith_dropWhile text⟩
  · rintro ⟨rfl, some, inside, outside⟩
    obtain ⟨taken, left⟩ := run_append inside outside
    rw [taken, left, if_neg some]

/-- A run reads nothing exactly where it cannot begin. -/
theorem scan_run1_eq_none_iff {text : List Char} :
    (run1 member).scan text = none ↔ ¬ BeginsWith (member · = true) text := by
  rw [scan_run1]
  cases text with
  | nil => simp [BeginsWith]
  | cons c text => by_cases holds : member c = true <;> simp [holds]

end Run

/-! ## Ends of lines -/

section LineEnd

variable {member : Char → Bool}

/-- A line ends as late as it can. -/
theorem scan_lineEnd_cons (c : Char) (text : List Char) :
    (lineEnd member).scan (c :: text) =
      if member c = true then
        ((lineEnd member).scan text).or (if c = '\n' then some ((), c :: text) else none)
      else none := by
  rw [scan_lineEnd, scan_lineEnd, List.span_eq_takeWhile_dropWhile,
    List.span_eq_takeWhile_dropWhile]
  by_cases holds : member c = true
  · rw [List.takeWhile_cons_of_pos holds, List.dropWhile_cons_of_pos holds, if_pos holds]
    have all := List.takeWhile_append_dropWhile (p := member) (l := text)
    cases left : text.dropWhile member with
    | nil => rfl
    | cons d rest =>
      rw [left] at all
      generalize text.takeWhile member = cs at all
      by_cases inside : '\n' ∈ cs
      · have short : (cs.reverse ++ [c]).takeWhile (· != '\n') =
            cs.reverse.takeWhile (· != '\n') := by
          rw [List.takeWhile_append, if_neg]
          intro whole
          have same := (List.takeWhile_prefix _).eq_of_length whole
          have others := List.all_eq_true.1 (List.all_takeWhile (p := (· != '\n')) (l := cs.reverse))
          rw [same] at others
          exact absurd (others '\n' (List.mem_reverse.2 inside)) (by decide)
        simp [inside, short]
      · by_cases newline : c = '\n'
        · subst newline
          have others : ∀ d ∈ cs.reverse, (d != '\n') = true := fun d mem =>
            bne_iff_ne.2 fun same => inside (same ▸ List.mem_reverse.1 mem)
          have whole : (cs.reverse ++ ['\n']).takeWhile (· != '\n') = cs.reverse := by
            rw [List.takeWhile_append_of_pos others]
            simp
          simp [inside, whole, ← all]
        · simp [inside, newline, Ne.symm newline]
  · rw [List.takeWhile_cons_of_neg holds, List.dropWhile_cons_of_neg holds, if_neg holds]
    rfl

theorem scan_lineEnd_of_forall {text : List Char} (inside : ∀ c ∈ text, member c = true) :
    (lineEnd member).scan text = some ((), []) := by
  induction text with
  | nil => rfl
  | cons c text ih =>
    obtain ⟨first, others⟩ := List.forall_mem_cons.1 inside
    rw [scan_lineEnd_cons, if_pos first, ih others, Option.some_or]

/-- An end of a line is found behind a run, where the text ends or a line does. -/
theorem of_scan_lineEnd {text rest : List Char}
    (scanned : (lineEnd member).scan text = some ((), rest)) :
    ∃ cs, text = cs ++ rest ∧ (∀ c ∈ cs, member c = true) ∧
      (rest = [] ∨ ∃ more, rest = '\n' :: more) := by
  induction text with
  | nil =>
    obtain rfl := (Prod.mk.inj (Option.some.inj scanned)).2
    exact ⟨[], rfl, nofun, .inl rfl⟩
  | cons c text ih =>
    rw [scan_lineEnd_cons] at scanned
    split at scanned
    · next holds =>
      rcases Option.or_eq_some_iff.1 scanned with later | ⟨_, here⟩
      · obtain ⟨cs, rfl, inside, ends⟩ := ih later
        exact ⟨c :: cs, rfl, List.forall_mem_cons.2 ⟨holds, inside⟩, ends⟩
      · split at here
        · next newline =>
          obtain rfl := (Prod.mk.inj (Option.some.inj here)).2
          exact ⟨[], rfl, nofun, .inr ⟨text, by rw [newline]⟩⟩
        · cases here
    · cases scanned

/-- In front of an end of a line, a run can be ended, and there or further on it is. -/
theorem scan_lineEnd_append (newline : member '\n' = true) {cs behind : List Char}
    (inside : ∀ c ∈ cs, member c = true) (ends : behind = [] ∨ ∃ more, behind = '\n' :: more) :
    ∃ rest, (lineEnd member).scan (cs ++ behind) = some ((), rest) ∧
      rest.length ≤ behind.length := by
  induction cs with
  | nil =>
    rcases ends with rfl | ⟨more, rfl⟩
    · exact ⟨[], rfl, Nat.le_refl _⟩
    · rw [List.nil_append, scan_lineEnd_cons, if_pos newline, if_pos rfl]
      rcases later : (lineEnd member).scan more with _ | ⟨⟨⟩, rest⟩
      · exact ⟨_, rfl, Nat.le_refl _⟩
      · obtain ⟨run, rfl, -, -⟩ := of_scan_lineEnd later
        refine ⟨rest, rfl, ?_⟩
        rw [List.length_cons, List.length_append]
        omega
  | cons c cs ih =>
    obtain ⟨first, others⟩ := List.forall_mem_cons.1 inside
    obtain ⟨rest, scanned, short⟩ := ih others
    refine ⟨rest, ?_, short⟩
    rw [List.cons_append, scan_lineEnd_cons, if_pos first, scanned, Option.some_or]

end LineEnd

/-! ## Searching -/

section Find

variable {p : Pattern α}

/-- Nothing is found exactly if the pattern reads nothing at any place. -/
theorem findFrom_eq_none_iff {text : List Char} (before : List Char) :
    p.findFrom before text = none ↔
      ∀ inside behind, text = inside ++ behind → p.scan behind = none := by
  induction text generalizing before with
  | nil =>
    rw [findFrom, Option.map_eq_none_iff]
    refine ⟨fun none inside behind same => ?_, fun all => all [] [] rfl⟩
    obtain ⟨rfl, rfl⟩ := List.append_eq_nil_iff.1 same.symm
    exact none
  | cons c text ih =>
    rw [findFrom]
    constructor
    · intro none inside behind same
      cases scanned : p.scan (c :: text) with
      | some read => rw [scanned] at none; cases none
      | none =>
        rw [scanned] at none
        rcases List.cons_eq_append_iff.1 same with ⟨rfl, rfl⟩ | ⟨inside, rfl, rfl⟩
        · exact scanned
        · exact (ih _).1 none inside behind rfl
    · intro all
      rw [all [] _ rfl]
      exact (ih _).2 fun inside behind same => all (c :: inside) behind (congrArg (c :: ·) same)

/-- What is found is what is scanned at the leftmost place where the pattern can be scanned. -/
theorem findFrom_eq_some_iff {text front : List Char} {a : α} (before : List Char) :
    p.findFrom before text = some (front, a) ↔ ∃ inside behind rest,
      text = inside ++ behind ∧ front = before.reverse ++ inside ∧
        p.scan behind = some (a, rest) ∧
          ∀ inside' behind', text = inside' ++ behind' → inside'.length < inside.length →
            p.scan behind' = none := by
  induction text generalizing before with
  | nil =>
    rw [findFrom, Option.map_eq_some_iff]
    constructor
    · rintro ⟨⟨a, rest⟩, scanned, same⟩
      obtain ⟨rfl, rfl⟩ := Prod.mk.inj same
      exact ⟨[], [], rest, rfl, (List.append_nil _).symm, scanned, nofun⟩
    · rintro ⟨inside, behind, rest, same, rfl, scanned, _⟩
      obtain ⟨rfl, rfl⟩ := List.append_eq_nil_iff.1 same.symm
      exact ⟨(a, rest), scanned, by rw [List.append_nil]⟩
  | cons c text ih =>
    rw [findFrom]
    cases scanned : p.scan (c :: text) with
    | some read =>
      constructor
      · intro found
        obtain ⟨rfl, rfl⟩ := Prod.mk.inj (Option.some.inj found)
        exact ⟨[], c :: text, read.2, rfl, (List.append_nil _).symm, scanned, nofun⟩
      · rintro ⟨inside, behind, rest, same, rfl, scanned', least⟩
        cases inside with
        | nil =>
          obtain rfl : c :: text = behind := same
          obtain rfl := Option.some.inj (scanned.symm.trans scanned')
          rw [List.append_nil]
        | cons d inside =>
          have none := least [] (c :: text) rfl (Nat.zero_lt_succ _)
          cases scanned.symm.trans none
    | none =>
      refine (ih _).trans ⟨?_, ?_⟩
      · rintro ⟨inside, behind, rest, rfl, rfl, scanned', least⟩
        refine ⟨c :: inside, behind, rest, rfl, ?_, scanned', fun inside' behind' same less => ?_⟩
        · rw [List.reverse_cons, List.append_assoc, List.singleton_append]
        · rcases List.cons_eq_append_iff.1 same with ⟨rfl, rfl⟩ | ⟨inside', rfl, same'⟩
          · exact scanned
          · exact least inside' behind' same' (Nat.lt_of_succ_lt_succ less)
      · rintro ⟨inside, behind, rest, same, rfl, scanned', least⟩
        rcases List.cons_eq_append_iff.1 same with ⟨rfl, rfl⟩ | ⟨inside, rfl, rfl⟩
        · cases scanned.symm.trans scanned'
        · refine ⟨inside, behind, rest, rfl, ?_, scanned', fun inside' behind' same less => ?_⟩
          · rw [List.reverse_cons, List.append_assoc, List.singleton_append]
          · exact least (c :: inside') behind' (congrArg (c :: ·) same) (Nat.succ_lt_succ less)

end Find

/-- The pattern can be scanned exactly where a character of the class follows. -/
def Starts (member : Char → Bool) (p : Pattern α) : Prop :=
  ∀ text, p.scan text = none ↔ ¬ BeginsWith (member · = true) text

section Starts

variable {member : Char → Bool} {p : Pattern α}

/-- A pattern that only its first character decides is missed where no such character is. -/
theorem Starts.findFrom_eq_none_iff (starts : Starts member p) {text : List Char}
    (before : List Char) : p.findFrom before text = none ↔ ∀ c ∈ text, ¬ member c = true := by
  induction text generalizing before with
  | nil =>
    have none := (starts []).2 id
    rw [findFrom, none]
    exact ⟨fun _ => nofun, fun _ => rfl⟩
  | cons c text ih =>
    have first : p.scan (c :: text) = none ↔ ¬ member c = true := starts (c :: text)
    rw [findFrom, List.forall_mem_cons, ← first]
    cases scanned : p.scan (c :: text) with
    | none => exact (ih _).trans ⟨fun others => ⟨rfl, others⟩, And.right⟩
    | some read => exact ⟨nofun, fun both => nomatch both.1⟩

/-- A pattern that only its first character decides is found at the first such character. -/
theorem Starts.findFrom_eq_some_iff (starts : Starts member p) {text front : List Char} {a : α}
    (before : List Char) :
    p.findFrom before text = some (front, a) ↔ ∃ inside behind rest,
      text = inside ++ behind ∧ front = before.reverse ++ inside ∧
        (∀ c ∈ inside, ¬ member c = true) ∧ p.scan behind = some (a, rest) := by
  induction text generalizing before with
  | nil =>
    have none := (starts []).2 id
    rw [findFrom, none]
    refine ⟨nofun, ?_⟩
    rintro ⟨inside, behind, rest, same, _, _, scanned⟩
    obtain ⟨rfl, rfl⟩ := List.append_eq_nil_iff.1 same.symm
    rw [none] at scanned
    cases scanned
  | cons c text ih =>
    have first : p.scan (c :: text) = none ↔ ¬ member c = true := starts (c :: text)
    rw [findFrom]
    cases scanned : p.scan (c :: text) with
    | none =>
      refine (ih _).trans ⟨?_, ?_⟩
      · rintro ⟨inside, behind, rest, rfl, rfl, others, found⟩
        refine ⟨c :: inside, behind, rest, rfl, ?_,
          List.forall_mem_cons.2 ⟨first.1 scanned, others⟩, found⟩
        rw [List.reverse_cons, List.append_assoc, List.singleton_append]
      · rintro ⟨inside, behind, rest, same, rfl, others, found⟩
        cases inside with
        | nil =>
          rw [List.nil_append] at same
          rw [← same, scanned] at found
          cases found
        | cons d inside =>
          obtain ⟨rfl, rfl⟩ := List.cons.inj same
          refine ⟨inside, behind, rest, rfl, ?_, (List.forall_mem_cons.1 others).2, found⟩
          rw [List.reverse_cons, List.append_assoc, List.singleton_append]
    | some read =>
      constructor
      · intro found
        obtain ⟨rfl, rfl⟩ := Prod.mk.inj (Option.some.inj found)
        exact ⟨[], c :: text, read.2, rfl, (List.append_nil _).symm, nofun, scanned⟩
      · rintro ⟨inside, behind, rest, same, rfl, others, found⟩
        cases inside with
        | nil =>
          rw [List.nil_append] at same
          rw [← same, scanned] at found
          obtain rfl := Option.some.inj found
          rw [List.append_nil]
        | cons d inside =>
          obtain ⟨rfl, rfl⟩ := List.cons.inj same
          have none := first.2 (others c List.mem_cons_self)
          rw [scanned] at none
          cases none

end Starts

end CodeListing.Pattern
