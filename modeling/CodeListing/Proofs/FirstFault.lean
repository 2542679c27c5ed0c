import Mathlib.Data.Nat.Find
import CodeListing.Listing.Fault
import CodeListing.Proofs.Highlighter
import CodeListing.Proofs.History

/-!
# The first line at fault

A block fails if one of its lines is at fault, and then with the error of the first such line
(`render_firstFault`).  The lines are gone through with this in hand: none of those that are done is
at fault, and the tokenizer has the state that they have left (`Transcript.failure_fromLine`).
-/

namespace CodeListing

variable {γ σ : Type}

/-! ## The first place of all -/

/-- There is at most one place that comes before all others. -/
theorem exists_first_iff {α : Type} {at? : Nat → Option α} {place : Nat} {a b : α}
    (found : at? place = some a) (before : ∀ earlier < place, at? earlier = none) :
    (∃ place, at? place = some b ∧ ∀ earlier < place, at? earlier = none) ↔ a = b := by
  constructor
  · rintro ⟨place', found', before'⟩
    rcases Nat.lt_trichotomy place place' with less | rfl | more
    · rw [before' place less] at found
      cases found
    · exact Option.some.inj (found.symm.trans found')
    · rw [before place' more] at found'
      cases found'
  · rintro rfl
    exact ⟨place, found, before⟩

/-- What is somewhere is somewhere first. -/
theorem exists_first_of_isSome {α : Type} {at? : Nat → Option α} {place : Nat}
    (found : (at? place).isSome) :
    ∃ a place, at? place = some a ∧ ∀ earlier < place, at? earlier = none := by
  have some : ∃ place, (at? place).isSome := ⟨place, found⟩
  obtain ⟨a, here⟩ := Option.isSome_iff_exists.1 (Nat.find_spec some)
  refine ⟨a, Nat.find some, here, fun earlier less => ?_⟩
  exact Option.not_isSome_iff_eq_none.1 (Nat.find_min some less)

/-! ## One line -/

/-- A line is passed unless it has an unknown word, and the first of these is its error. -/
theorem Progress.unknownWord?_of_passLine {fence : Fence} {p p' : Progress} {index : Nat}
    {line : String} {result : Except Error LineNote}
    (passed : p.passLine fence index line = (p', result)) :
    match result with
    | .error e => ∃ word, DirectiveComment.unknownWord? line = some word ∧ e = .directive word index
    | .ok _ => DirectiveComment.unknownWord? line = none := by
  have unknown := p.find?_of_obeyWords
    { mark := if fence.highlights index then .highlighted else .plain }
    (DirectiveComment.split line).words
  unfold passLine pass at passed
  split at passed
  · next word obeyed =>
    obtain rfl := (Prod.mk.inj passed).2
    rw [obeyed] at unknown
    exact ⟨word, unknown, rfl⟩
  · next obeyed =>
    obtain rfl := (Prod.mk.inj passed).2
    rw [obeyed] at unknown
    exact unknown

namespace Tokenizer

variable (tokenizer : Tokenizer γ σ) (grammar : γ)

/-- The state behind one line more is the one that the tokenizer gives for that line. -/
theorem stateBehind_concat {codes : List String} {code : String} {state : Option σ}
    {tokens : List Token} {next : σ} (left : tokenizer.stateBehind grammar codes = .ok state)
    (tokenized : tokenizer.tokenize grammar code state = .ok (tokens, next)) :
    tokenizer.stateBehind grammar (codes ++ [code]) = .ok (some next) := by
  unfold stateBehind at left ⊢
  rw [List.foldlM_append, left]
  simp [bind, Except.bind, tokenized, pure, Except.pure]

/-- Whether the tokenizer fails on a line hangs on the lines in front of it by its state alone. -/
theorem failureAt?_length {before : List String} {state : Option σ}
    (left : tokenizer.stateBehind grammar before = .ok state) (code : String)
    (others : List String) :
    tokenizer.failureAt? grammar (before ++ code :: others) before.length =
      tokenizer.failure? grammar code state := by
  simp [failureAt?, left]

/-- The error of a line behind lines that the tokenizer has taken apart. -/
theorem errorAt?_length {before : List String} {state : Option σ}
    (left : tokenizer.stateBehind grammar (before.map DirectiveComment.codeOf) = .ok state)
    (line : String) (others : List String) :
    tokenizer.errorAt? grammar (before ++ line :: others) before.length =
      ((DirectiveComment.unknownWord? line).map (.directive · before.length)).or
        ((tokenizer.failure? grammar (DirectiveComment.codeOf line) state).map .tokenizer) := by
  have failure := tokenizer.failureAt?_length grammar left (DirectiveComment.codeOf line)
    (others.map DirectiveComment.codeOf)
  rw [List.length_map] at failure
  rw [errorAt?, List.map_append, List.map_cons, failure]
  simp [DirectiveComment.unknownAt?]

theorem errorAt?_of_length_le {lines : List String} {place : Nat} (beyond : lines.length ≤ place) :
    tokenizer.errorAt? grammar lines place = none := by
  simp [errorAt?, DirectiveComment.unknownAt?, failureAt?, beyond]

theorem isSome_errorAt? (lines : List String) (place : Nat) :
    (tokenizer.errorAt? grammar lines place).isSome ↔
      (DirectiveComment.unknownAt? lines place).isSome ∨
        (tokenizer.failureAt? grammar (lines.map DirectiveComment.codeOf) place).isSome := by
  simp [errorAt?]

end Tokenizer

/-! ## All lines -/

/-- Behind lines that are not at fault, going on ends with the error of the first line that is. -/
theorem Transcript.failure_fromLine (tokenizer : Tokenizer γ σ) (grammar : γ) (fence : Fence)
    (progress : Progress) (before others : List String) {state : Option σ} {e : Error}
    (left : tokenizer.stateBehind grammar (before.map DirectiveComment.codeOf) = .ok state)
    (sound : ∀ place < before.length,
      tokenizer.errorAt? grammar (before ++ others) place = none) :
    (fromLine tokenizer grammar fence before.length progress state others).failure = some e ↔
      ∃ place, tokenizer.errorAt? grammar (before ++ others) place = some e ∧
        ∀ earlier < place, tokenizer.errorAt? grammar (before ++ others) earlier = none := by
  induction others generalizing progress before state with
  | nil =>
    refine iff_of_false (Option.some_ne_none e).symm ?_
    rintro ⟨place, faulty, -⟩
    rcases Nat.lt_or_ge place before.length with inside | beyond
    · rw [sound place inside] at faulty
      cases faulty
    · rw [List.append_nil, tokenizer.errorAt?_of_length_le grammar beyond] at faulty
      cases faulty
  | cons line others ih =>
    have here := tokenizer.errorAt?_length grammar left line others
    rcases passed : progress.passLine fence before.length line with ⟨progress', e' | note⟩
    · obtain ⟨word, unknown, rfl⟩ := Progress.unknownWord?_of_passLine passed
      rw [unknown, Option.map_some, Option.some_or] at here
      rw [fromLine_unknown tokenizer grammar fence others passed, exists_first_iff here sound]
      exact Option.some_inj
    · have known := Progress.unknownWord?_of_passLine passed
      rw [known, Option.map_none, Option.none_or, Tokenizer.failure?] at here
      rcases answer : tokenizer.tokenize grammar (DirectiveComment.codeOf line) state with
        detail | ⟨tokens, next⟩
      · rw [answer] at here
        rw [fromLine_failed tokenizer grammar fence others passed answer,
          exists_first_iff here sound]
        exact Option.some_inj
      · -- the line is not at fault and joins those that are done
        rw [answer] at here
        have split : before ++ line :: others = (before ++ [line]) ++ others :=
          (List.append_assoc before [line] others).symm
        rw [fromLine_ok tokenizer grammar fence others passed answer]
        rw [split] at sound here ⊢
        have rest := @ih progress' (before ++ [line]) (some next)
        rw [List.length_append, List.length_singleton, List.map_append, List.map_singleton] at rest
        refine rest (tokenizer.stateBehind_concat grammar left answer) fun place less => ?_
        rcases Nat.lt_or_eq_of_le (Nat.le_of_lt_succ less) with inside | rfl
        · exact sound place inside
        · exact here

/-- The lines fail with the first error of all. -/
theorem Transcript.failure_ofLines (tokenizer : Tokenizer γ σ) (grammar : γ) (fence : Fence)
    (lines : List String) (e : Error) :
    (ofLines tokenizer grammar fence lines).failure = some e ↔
      ∃ place, tokenizer.errorAt? grammar lines place = some e ∧
        ∀ earlier < place, tokenizer.errorAt? grammar lines earlier = none :=
  failure_fromLine tokenizer grammar fence _ [] lines rfl fun _ before =>
    absurd before (Nat.not_lt_zero _)

/-- **A block fails at the first line at fault.**  A block that has a fence and a grammar fails if
some line has an unknown word or makes the tokenizer fail.  The error is that of the first such
line: its first unknown word with the place of the line, or else what the tokenizer says. -/
theorem Highlighter.render_firstFault (h : Highlighter γ σ) (block : CodeBlock) (out : String)
    {fence : Fence} {grammar : γ} (planned : h.plan block = .ok (fence, grammar)) :
    ((∃ e, (h.render block out).outcome = .error e) ↔
      ∃ place, (DirectiveComment.unknownAt? block.lines place).isSome ∨
        (h.tokenizer.failureAt? grammar (block.lines.map DirectiveComment.codeOf) place).isSome) ∧
      ∀ e, (h.render block out).outcome = .error e ↔
        ∃ place, h.tokenizer.errorAt? grammar block.lines place = some e ∧
          ∀ earlier < place, h.tokenizer.errorAt? grammar block.lines earlier = none := by
  have error (e : Error) : (h.render block out).outcome = .error e ↔
      (Transcript.ofLines h.tokenizer grammar fence block.lines).failure = some e := by
    rw [(h.render_of_plan block out planned).1, Transcript.listing?]
    cases (Transcript.ofLines h.tokenizer grammar fence block.lines).failure <;>
      simp [Except.map]
  simp only [error, Transcript.failure_ofLines, ← Tokenizer.isSome_errorAt?]
  refine ⟨⟨?_, ?_⟩, fun e => trivial⟩
  · rintro ⟨e, place, faulty, -⟩
    exact ⟨place, by rw [faulty]; rfl⟩
  · rintro ⟨place, faulty⟩
    exact exists_first_of_isSome faulty

/-- The tokenizer fails at the second line and would do so at every later one; the second line has
unknown words as well, and the first of them is the error. -/
theorem Highlighter.render_firstFault_both :
    let h : Highlighter Unit Nat :=
      { tokenizer :=
          { grammar? := fun _ => some ()
            tokenize := fun _ _ state => if state = none then .ok ([], 1) else .error "stuck" }
        stylist := ⟨fun _ => [], fun _ => []⟩
        fallback := .plain
        config := {} }
    let block := CodeBlock.fenced "js" "a // [!code line-numbers=9]\nb // [!code focus c d]\nc"
    h.plan block = .ok (⟨"js", .disabled, [], none⟩, ()) ∧
      (h.render block "").outcome = .error (.directive "c" 1) := by
  intro h block
  have planned : h.plan block = .ok (⟨"js", .disabled, [], none⟩, ()) := by decide +kernel
  have faulty : h.tokenizer.errorAt? () block.lines 1 = some (.directive "c" 1) := by decide +kernel
  have before : ∀ earlier < 1, h.tokenizer.errorAt? () block.lines earlier = none := by
    decide +kernel
  exact ⟨planned, ((h.render_firstFault block "" planned).2 _).2 ⟨1, faulty, before⟩⟩

end CodeListing
