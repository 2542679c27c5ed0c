import CodeListing.OutputBuffer

/-!
# Output buffers and their history

What a buffer holds hangs on the operations behind it, and of those on the last one that has changed
the destination and on what was written since.  `Holds` says this of operations alone, without any
buffer; `Performs` says what an operation comes to behind them.  `sessions` lists the destinations
with all that was written to each of them, whenever they are handed back.
-/

namespace CodeListing.OutputBuffer

namespace Operation

/-- Whether the operation changes the destination. -/
def rebinds : Operation → Bool
  | .bind _ => true
  | .release => true
  | _ => false

/-- The text that the operation writes. -/
def written : Operation → String
  | .char c => String.singleton c
  | .text s => s
  | .escaped s => Markup.escape s
  | .number n => Text.decimal n
  | .formattedChar c => String.singleton c
  | .formattedText s => s
  | _ => ""

/-- The error of the operation where it needs a destination and there is none. -/
def refusal : Operation → Error
  | .formattedChar _ => .format
  | .formattedText _ => .format
  | _ => .unbound

/-- The answer to the operation where the destination holds `content` and stays bound. -/
def reply (content : String) : Operation → Answer
  | .contents => .text content
  | _ => .done

end Operation

/-- All that the operations write. -/
def writtenBy (ops : List Operation) : String := String.join (ops.map Operation.written)

/-- What the destination holds behind operations that have begun without one: the text that it was
bound with and all that was written since.  There is no destination if it was taken back or never
bound. -/
inductive Holds : List Operation → Option String → Prop
  | bound {before since : List Operation} (destination : String)
      (kept : ∀ op ∈ since, op.rebinds = false) :
      Holds (before ++ .bind destination :: since) (some (destination ++ writtenBy since))
  | released {before since : List Operation} (kept : ∀ op ∈ since, op.rebinds = false) :
      Holds (before ++ .release :: since) none
  | unbound {ops : List Operation} (kept : ∀ op ∈ ops, op.rebinds = false) : Holds ops none

/-- What `op` comes to on a buffer `b` that holds `held`: the answer, and the buffer `next` that is
left. -/
structure Performs (held : Option String) (op : Operation) (b next : OutputBuffer)
    (answer : Except Error Answer) : Prop where
  fails : (∃ e, answer = .error e) ↔ op.rebinds = false ∧ held = none
  refused : ∀ e, answer = .error e → e = op.refusal ∧ next = b
  replied : ∀ content, held = some content → op.rebinds = false → answer = .ok (op.reply content)
  handedBack : op.rebinds = true → answer = .ok (.destination held)

/-- The buffer behind the operations. -/
def behind (b : OutputBuffer) (ops : List Operation) : OutputBuffer :=
  ops.foldl (fun b op => (b.perform op).2) b

/-- The answers to the operations one after the other. -/
def answers (b : OutputBuffer) : List Operation → List (Except Error Answer)
  | [] => []
  | op :: ops => (b.perform op).1 :: (b.perform op).2.answers ops

/-- The destination that an answer hands back. -/
def handedBack? : Except Error Answer → Option String
  | .ok (.destination held) => held
  | _ => none

/-- The destinations that the operations bind, each with all that is written to it until the
destination is changed again. -/
def sessions : List Operation → List String
  | [] => []
  | .bind destination :: ops =>
    (destination ++ writtenBy (ops.takeWhile fun op => !op.rebinds)) :: sessions ops
  | _ :: ops => sessions ops

end CodeListing.OutputBuffer
