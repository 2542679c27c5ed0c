import CodeListing.Proofs.Highlighter

/-!
# All of a block or nothing

A block is put behind the output as a whole.  If a word of its directives is unknown or the
tokenizer fails, at whatever line, nothing of it is; what is put there never depends on what the
output held before.  The block itself is given back as it came, but for the group that its fence
names.
-/

namespace CodeListing

variable {γ σ : Type}

/-- The only errors that come of lines are those of an unknown directive and of the tokenizer. -/
inductive Error.OfLine : Error → Prop
  | directive (word : String) (line : Nat) : OfLine (.directive word line)
  | tokenizer (detail : String) : OfLine (.tokenizer detail)

/-- A line fails by its directives only, and the error names the line. -/
theorem Progress.passLine_error {fence : Fence} {progress progress' : Progress} {index : Nat}
    {line : String}
    {e : Error} (failed : progress.passLine fence index line = (progress', .error e)) :
    ∃ word, e = .directive word index := by
  unfold passLine pass at failed
  split at failed
  · next word _ =>
    exact ⟨word, by cases failed; rfl⟩
  · cases failed

/-- Whatever ends the lines early is an error of one of them. -/
theorem Transcript.failure_ofLine (tokenizer : Tokenizer γ σ) (grammar : γ) (fence : Fence)
    (index : Nat) (progress : Progress) (state : Option σ) (lines : List String) {e : Error}
    (failed : (fromLine tokenizer grammar fence index progress state lines).failure = some e) :
    e.OfLine := by
  induction lines generalizing index progress state with
  | nil => cases failed
  | cons line lines ih =>
    rcases passed : progress.passLine fence index line with ⟨progress', e' | note⟩
    · rw [Transcript.fromLine_unknown tokenizer grammar fence lines passed] at failed
      obtain rfl := Option.some.inj failed
      obtain ⟨word, rfl⟩ := Progress.passLine_error passed
      exact .directive word index
    · rcases answer : tokenizer.tokenize grammar (DirectiveComment.split line).code state with
        detail | ⟨tokens, state'⟩
      · rw [Transcript.fromLine_failed tokenizer grammar fence lines passed answer] at failed
        obtain rfl := Option.some.inj failed
        exact .tokenizer detail
      · rw [Transcript.fromLine_ok tokenizer grammar fence lines passed answer] at failed
        exact ih _ _ _ failed

theorem CodeBlock.attached?_attach (block : CodeBlock) (key value other : String) :
    (block.attach key value).attached? other =
      if key = other then some value else block.attached? other := by
  simp [attach, attached?, Std.TreeMap.getElem?_insert]

namespace Highlighter

variable (h : Highlighter γ σ) (block : CodeBlock)

/-- What is put behind the output for a block, and how it ends: all that the block comes to, or,
with an error of one of its lines, nothing. -/
inductive Shows : Except Error Outcome → String → Prop
  | listing (anyFocused anyNumbered : Bool) (text : String) :
      Shows (.ok (.highlighted anyFocused anyNumbered)) text
  | nothing {e : Error} : e.OfLine → Shows (.error e) ""

/-- What comes of a block, and which text, is settled before there is any output to put it behind.
-/
theorem highlight_shows (fence : Fence) (grammar : γ) :
    ∃ outcome text, Shows outcome text ∧ ∀ out,
      (h.highlight block out fence grammar).outcome = outcome ∧
      (h.highlight block out fence grammar).out = out ++ text := by
  simp only [highlight_eq, Transcript.listing?]
  cases failed : (Transcript.ofLines h.tokenizer grammar fence block.lines).failure with
  | some e =>
    have ofLine := Transcript.failure_ofLine _ _ _ _ _ _ _ failed
    exact ⟨_, _, .nothing ofLine, fun out => ⟨rfl, by simp⟩⟩
  | none => exact ⟨_, _, .listing _ _ _, fun out => ⟨rfl, rfl⟩⟩

/-- The group is attached to the block whether or not it is shown as highlighted. -/
theorem block_render (out : String) : (h.render block out).block = h.attachGroup block := by
  rw [render_eq]
  cases h.plan block with
  | error reason => rfl
  | ok planned => simp only [highlight_eq]

/-- Nothing but the group is attached, and only if the fence names one. -/
theorem attached?_attachGroup (key : String) :
    (h.attachGroup block).attached? key =
      if key = CodeBlock.groupKey then ((h.fence? block).bind (·.group)).or (block.attached? key)
      else block.attached? key := by
  unfold attachGroup
  cases (h.fence? block).bind (·.group) with
  | none => simp
  | some group =>
    rw [CodeBlock.attached?_attach]
    by_cases same : key = CodeBlock.groupKey
    · simp [same]
    · simp [same, Ne.symm same]

/-- **All of a block or nothing.**  A block that is not shown as plain text puts its listing behind
the output, or fails with an error of one of its lines and leaves the output alone.  Whatever
becomes of it, it keeps its kind, the words on its fence and its lines, and of the data attached to
it only the group is set, if its fence names one. -/
theorem render_atomic :
    (match h.plan block with
      | .ok _ => ∃ outcome text, Shows outcome text ∧ ∀ out,
          (h.render block out).outcome = outcome ∧ (h.render block out).out = out ++ text
      | .error reason => ∀ out,
          (h.render block out).outcome =
            (h.fallback (h.attachGroup block)).2.map (fun _ => .fallback reason) ∧
          (h.render block out).out = out ++ (h.fallback (h.attachGroup block)).1) ∧
      ∀ out,
        (h.render block out).block.kind = block.kind ∧
        (h.render block out).block.info = block.info ∧
        (h.render block out).block.arguments = block.arguments ∧
        (h.render block out).block.lines = block.lines ∧
        ∀ key, (h.render block out).block.attached? key =
          if key = CodeBlock.groupKey then
            ((h.fence? block).bind (·.group)).or (block.attached? key)
          else block.attached? key := by
  constructor
  · simp only [render_eq]
    cases h.plan block with
    | error reason => exact fun out => ⟨rfl, rfl⟩
    | ok planned =>
      obtain ⟨fence, grammar⟩ := planned
      exact h.highlight_shows (h.attachGroup block) fence grammar
  · intro out
    rw [block_render]
    refine ⟨?_, ?_, ?_, ?_, h.attached?_attachGroup block⟩ <;>
      (unfold attachGroup; split <;> rfl)

end Highlighter

end CodeListing
