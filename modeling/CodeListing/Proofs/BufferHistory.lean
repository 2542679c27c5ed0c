import Mathlib.Data.List.Basic
import Mathlib.Data.List.Induction
import CodeListing.OutputBuffer.History
import CodeListing.Proofs.OutputBuffer

/-!
# What becomes of what is written into an output buffer

A buffer holds what its history says, whatever operations it has gone through (`holds_iff`): each one
keeps this up (`Holds.perform`), and there is only one text that the history can say
(`Holds.behind_eq`).  What the next operation answers comes from it.  That no destination is lost and
none is handed back twice is a balance between the answers and what is still bound
(`answers_balance`).
-/

namespace CodeListing.OutputBuffer

variable {op : Operation} {since ops : List Operation}

@[simp]
theorem writtenBy_nil : writtenBy [] = "" := rfl

@[simp]
theorem writtenBy_cons (op : Operation) (ops : List Operation) :
    writtenBy (op :: ops) = op.written ++ writtenBy ops := by
  simp [writtenBy]

@[simp]
theorem writtenBy_append (ops more : List Operation) :
    writtenBy (ops ++ more) = writtenBy ops ++ writtenBy more := by
  simp [writtenBy]

/-! ## One operation -/

/-- With a destination every operation that keeps it succeeds and writes its text behind the
content. -/
theorem perform_bound (keeps : op.rebinds = false) (content : String) :
    perform ⟨some content⟩ op = (.ok (op.reply content), ⟨some (content ++ op.written)⟩) := by
  cases op with
  | bind destination => cases keeps
  | release => cases keeps
  | flush => simp [perform, Operation.reply, Operation.written, Except.map]
  | contents => simp [perform, Operation.reply, Operation.written, Except.map]
  | number n =>
    rw [perform, appendNumber_bound]
    rfl
  | _ => rfl

/-- Without a destination every operation that needs one is refused and leaves the buffer alone. -/
theorem perform_unbound (keeps : op.rebinds = false) :
    perform ⟨none⟩ op = (.error op.refusal, ⟨none⟩) := by
  cases op with
  | bind destination => cases keeps
  | release => cases keeps
  | number n =>
    rw [perform, appendNumber_eq]
    rfl
  | _ => rfl

/-- Whatever changes the destination hands back the one before. -/
theorem perform_rebinds (rebinds : op.rebinds = true) (b : OutputBuffer) :
    (b.perform op).1 = .ok (.destination b.destination) := by
  cases op with
  | bind destination => rfl
  | release => rfl
  | _ => cases rebinds

/-! ## Operations that keep the destination -/

theorem behind_append (b : OutputBuffer) (ops more : List Operation) :
    b.behind (ops ++ more) = (b.behind ops).behind more := List.foldl_append

theorem behind_cons (b : OutputBuffer) (op : Operation) (ops : List Operation) :
    b.behind (op :: ops) = (b.perform op).2.behind ops := rfl

/-- Operations that keep the destination write their texts one after the other. -/
theorem behind_bound (kept : ∀ op ∈ since, op.rebinds = false) (content : String) :
    behind ⟨some content⟩ since = ⟨some (content ++ writtenBy since)⟩ := by
  induction since generalizing content with
  | nil => rw [writtenBy_nil, String.append_empty, behind, List.foldl_nil]
  | cons op since ih =>
    obtain ⟨first, others⟩ := List.forall_mem_cons.1 kept
    rw [behind_cons, perform_bound first, ih others, writtenBy_cons, String.append_assoc]

/-- There is no destination until one is bound. -/
theorem behind_unbound (kept : ∀ op ∈ since, op.rebinds = false) :
    behind ⟨none⟩ since = ⟨none⟩ := by
  induction since with
  | nil => rfl
  | cons op since ih =>
    obtain ⟨first, others⟩ := List.forall_mem_cons.1 kept
    rw [behind_cons, perform_unbound first, ih others]

/-! ## What is held -/

/-- The history leaves no choice. -/
theorem Holds.behind_eq {held : Option String} (holds : Holds ops held) :
    empty.behind ops = ⟨held⟩ := by
  cases holds with
  | bound destination kept => rw [behind_append, behind_cons, perform, bind, behind_bound kept]
  | released kept => rw [behind_append, behind_cons, perform, release, empty, behind_unbound kept]
  | unbound kept => exact behind_unbound kept

theorem kept_concat (kept : ∀ op ∈ since, op.rebinds = false) (keeps : op.rebinds = false) :
    ∀ other ∈ since ++ [op], other.rebinds = false :=
  List.forall_mem_append.2 ⟨kept, List.forall_mem_singleton.2 keeps⟩

/-- What is written next is part of what is held, if anything is. -/
theorem Holds.concat {held : Option String} (holds : Holds ops held) (keeps : op.rebinds = false) :
    Holds (ops ++ [op]) (held.map (· ++ op.written)) := by
  cases holds with
  | @bound before since destination kept =>
    have longer : Holds (before ++ .bind destination :: (since ++ [op]))
        (some (destination ++ writtenBy (since ++ [op]))) := .bound _ (kept_concat kept keeps)
    simpa [String.append_assoc] using longer
  | @released before since kept =>
    have longer : Holds (before ++ .release :: (since ++ [op])) none :=
      .released (kept_concat kept keeps)
    simpa using longer
  | unbound kept => exact .unbound (kept_concat kept keeps)

/-- One operation more keeps the buffer to its history. -/
theorem Holds.perform {b : OutputBuffer} (holds : Holds ops b.destination) (op : Operation) :
    Holds (ops ++ [op]) (b.perform op).2.destination := by
  cases rebinds : op.rebinds with
  | false =>
    have longer := holds.concat rebinds
    rcases b with ⟨_ | content⟩
    · rwa [perform_unbound rebinds]
    · rwa [perform_bound rebinds]
  | true =>
    cases op with
    | bind destination =>
      have fresh : Holds (ops ++ [.bind destination]) (some (destination ++ writtenBy [])) :=
        .bound destination nofun
      rwa [writtenBy_nil, String.append_empty] at fresh
    | release => exact .released nofun
    | _ => cases rebinds

/-- Every history leads to what it says, by one operation after the other. -/
theorem holds_behind (ops : List Operation) : Holds ops (empty.behind ops).destination := by
  induction ops using List.reverseRecOn with
  | nil => exact .unbound nofun
  | append_singleton ops op ih =>
    rw [behind_append]
    exact ih.perform op

/-- What a buffer holds and what its history says are the same. -/
theorem holds_iff {held : Option String} :
    Holds ops held ↔ (empty.behind ops).destination = held := by
  constructor
  · intro holds
    rw [holds.behind_eq]
  · rintro rfl
    exact holds_behind ops

/-! ## What is answered -/

/-- An operation fails where it needs a destination and there is none, and then it changes
nothing. -/
theorem performs (b : OutputBuffer) (op : Operation) :
    Performs b.destination op b (b.perform op).2 (b.perform op).1 := by
  cases rebinds : op.rebinds with
  | false =>
    have keeps : ¬ op.rebinds = true := ne_true_of_eq_false rebinds
    rcases b with ⟨_ | content⟩
    · rw [perform_unbound rebinds]
      refine ⟨?_, ?_, nofun, fun changes => absurd changes keeps⟩
      · exact ⟨fun _ => ⟨rebinds, rfl⟩, fun _ => ⟨op.refusal, rfl⟩⟩
      · intro e same
        exact ⟨(Except.error.inj same).symm, rfl⟩
    · rw [perform_bound rebinds]
      refine ⟨⟨nofun, nofun⟩, nofun, ?_, fun changes => absurd changes keeps⟩
      intro other same _
      rw [Option.some.inj same]
  | true =>
    have changes : ¬ op.rebinds = false := ne_false_of_eq_true rebinds
    rw [perform_rebinds rebinds]
    refine ⟨⟨nofun, fun ⟨keeps, _⟩ => absurd keeps changes⟩, nofun,
      fun _ _ keeps => absurd keeps changes, fun _ => rfl⟩

/-- The answer at a place is given by the buffer behind the operations in front of it. -/
theorem getElem?_answers (b : OutputBuffer) (ops : List Operation) (place : Nat) :
    (b.answers ops)[place]? =
      ops[place]?.map fun op => ((b.behind (ops.take place)).perform op).1 := by
  induction ops generalizing b place with
  | nil => rfl
  | cons op ops ih =>
    cases place with
    | zero => rfl
    | succ place =>
      rw [answers, List.getElem?_cons_succ, List.getElem?_cons_succ, ih, List.take_succ_cons]
      rfl

theorem behind_take_succ (b : OutputBuffer) {place : Nat} (here : ops[place]? = some op) :
    b.behind (ops.take (place + 1)) = ((b.behind (ops.take place)).perform op).2 := by
  rw [List.take_add_one, here, Option.toList_some, behind_append]
  rfl

/-! ## What is handed back -/

/-- Nothing is handed back by an operation that keeps the destination. -/
theorem handedBack?_of_keeps (keeps : op.rebinds = false) (b : OutputBuffer) :
    handedBack? (b.perform op).1 = none := by
  rcases b with ⟨_ | content⟩
  · rw [perform_unbound keeps]
    rfl
  · rw [perform_bound keeps]
    cases op <;> rfl

theorem sessions_of_keeps (keeps : op.rebinds = false) (ops : List Operation) :
    sessions (op :: ops) = sessions ops := by
  cases op with
  | bind destination => cases keeps
  | _ => rfl

/-- The session that is on at the beginning, if there is one, and all that the operations begin. -/
def sessionsFrom (b : OutputBuffer) (ops : List Operation) : List String :=
  (b.destination.map (· ++ writtenBy (ops.takeWhile fun op => !op.rebinds))).toList ++ sessions ops

theorem sessionsFrom_nil (b : OutputBuffer) : b.sessionsFrom [] = b.destination.toList := by
  rcases b with ⟨_ | content⟩
  · rfl
  · simp [sessionsFrom, sessions]

/-- What is written becomes part of the session that is on. -/
theorem sessionsFrom_of_keeps (keeps : op.rebinds = false) (b : OutputBuffer)
    (ops : List Operation) : b.sessionsFrom (op :: ops) = (b.perform op).2.sessionsFrom ops := by
  unfold sessionsFrom
  rw [sessions_of_keeps keeps, List.takeWhile_cons_of_pos (by rw [keeps]; rfl)]
  rcases b with ⟨_ | content⟩
  · rw [perform_unbound keeps, Option.map_none, Option.map_none]
  · rw [perform_bound keeps, writtenBy_cons, Option.map_some, Option.map_some, String.append_assoc]

/-- A change of the destination ends the session that is on, as it stands. -/
theorem sessionsFrom_of_rebinds (rebinds : op.rebinds = true) (b : OutputBuffer)
    (ops : List Operation) :
    b.sessionsFrom (op :: ops) = b.destination.toList ++ (b.perform op).2.sessionsFrom ops := by
  have begun : sessions (op :: ops) = (b.perform op).2.sessionsFrom ops := by
    cases op with
    | bind destination => rfl
    | release => rfl
    | _ => cases rebinds
  rw [sessionsFrom, begun, List.takeWhile_cons_of_neg (by rw [rebinds]; decide), writtenBy_nil]
  simp only [String.append_empty, Option.map_id']

/-- One operation hands back a session that it ends, and goes on with the others. -/
theorem sessionsFrom_cons (b : OutputBuffer) (op : Operation) (ops : List Operation) :
    b.sessionsFrom (op :: ops) =
      (handedBack? (b.perform op).1).toList ++ (b.perform op).2.sessionsFrom ops := by
  cases rebinds : op.rebinds with
  | false =>
    rw [sessionsFrom_of_keeps rebinds, handedBack?_of_keeps rebinds, Option.toList_none,
      List.nil_append]
  | true =>
    rw [sessionsFrom_of_rebinds rebinds, perform_rebinds rebinds]
    rfl

/-- What is handed back and what is still bound make up all the sessions. -/
theorem answers_balance (b : OutputBuffer) (ops : List Operation) :
    (b.answers ops).filterMap handedBack? ++ (b.behind ops).destination.toList =
      b.sessionsFrom ops := by
  induction ops generalizing b with
  | nil =>
    rw [sessionsFrom_nil]
    rfl
  | cons op ops ih =>
    rw [answers, List.filterMap_eq_flatMap_toList, List.flatMap_cons,
      ← List.filterMap_eq_flatMap_toList, List.append_assoc, behind_cons, ih, sessionsFrom_cons]

/-! ## All operations -/

/-- **A buffer keeps to its history.**  Behind any operations it holds what they say: the text that
the destination was bound with, and everything that was written since.  At each place an operation
fails exactly if it needs a destination and none is bound, with its own error and without a trace,
and otherwise answers by what is held; where the destination is changed, that is handed back.  All
in all the destinations that are handed back, with the one that is still bound, are those that were
bound, each of them once, in order, with all that was written to it. -/
theorem perform_history (ops : List Operation) :
    (∀ held, Holds ops held ↔ (empty.behind ops).destination = held) ∧
    (∀ place op, ops[place]? = some op → ∃ held answer, Holds (ops.take place) held ∧
      (empty.answers ops)[place]? = some answer ∧
      Performs held op (empty.behind (ops.take place)) (empty.behind (ops.take (place + 1)))
        answer) ∧
    (empty.answers ops).filterMap handedBack? ++ (empty.behind ops).destination.toList =
      sessions ops := by
  refine ⟨fun held => holds_iff, fun place op here => ?_, answers_balance empty ops⟩
  let b := empty.behind (ops.take place)
  refine ⟨b.destination, (b.perform op).1, holds_behind (ops.take place), ?_, ?_⟩
  · rw [getElem?_answers, here, Option.map_some]
  · rw [behind_take_succ empty here]
    exact performs b op

/-- A write without a destination, a destination that is exchanged while it is bound, and a write
behind the last one. -/
theorem perform_history_exchange :
    let ops : List Operation := [.formattedChar 'a', .bind "b", .escaped "<", .number 1000000,
      .bind "c", .formattedText "d", .release, .flush]
    ops[0]? = some (.formattedChar 'a') ∧ (empty.answers ops)[0]? = some (.error .format) ∧
      ops[4]? = some (.bind "c") ∧
      (empty.answers ops)[4]? = some (.ok (.destination (some "b&lt;1000000"))) ∧
      (empty.answers ops).filterMap handedBack? = ["b&lt;1000000", "cd"] := by
  intro ops
  obtain ⟨-, places, balance⟩ := perform_history ops
  have first : ops[0]? = some (.formattedChar 'a') := rfl
  have fifth : ops[4]? = some (.bind "c") := rfl
  have nothing : ∀ held, Holds (ops.take 0) held → held = none := fun held holds =>
    (((perform_history (ops.take 0)).1 held).1 holds).symm
  have text : ∀ held, Holds (ops.take 4) held → held = some "b&lt;1000000" := by
    intro held holds
    rw [← ((perform_history (ops.take 4)).1 held).1 holds]
    decide +kernel
  refine ⟨first, ?_, fifth, ?_, ?_⟩
  · obtain ⟨held, answer, holds, found, performs⟩ := places 0 _ first
    obtain ⟨e, failed⟩ := performs.fails.2 ⟨rfl, nothing held holds⟩
    rw [found, failed, (performs.refused e failed).1]
    rfl
  · obtain ⟨held, answer, holds, found, performs⟩ := places 4 _ fifth
    rw [found, performs.handedBack rfl, text held holds]
  · have listed : sessions ops = ["b&lt;1000000", "cd"] := by decide +kernel
    have last : (empty.behind ops).destination = none := by decide +kernel
    rwa [last, Option.toList_none, List.append_nil, listed] at balance

end CodeListing.OutputBuffer
