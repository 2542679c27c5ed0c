import CodeListing.Draft
import CodeListing.Listing.Transcript
import CodeListing.Proofs.OutputBuffer

/-!
# What a draft comes to

A draft is written piece by piece into a workspace that outlives it.  This module says what the work
comes to: `Draft.addLines_run` replays it against the transcript of the lines, which knows no
workspace, and `Draft.body_run` reads off the text of the whole block.

Where the work fails, only the error and what outlives the block are pinned: progress, notices,
requests and remembered styles.  What the workspace holds then is left open on purpose, for it is
cleared.
-/

namespace CodeListing

open Markup

variable {γ σ α β : Type}

/-! ## Running work on a draft -/

namespace Drafting

variable (d : Draft σ)

/-- Work in two steps stops behind the first one if that fails, and the draft stays as it is then.
-/
@[simp]
theorem run_bind (x : Drafting σ α) (f : α → Drafting σ β) :
    (x >>= f).run.run d =
      match x.run.run d with
      | (.ok a, d) => (f a).run.run d
      | (.error e, d) => (.error e, d) := by
  rw [ExceptT.run_bind, StateT.run_bind]
  rcases x.run.run d with ⟨_ | _, _⟩ <;> rfl

@[simp]
theorem run_pure (a : α) : (pure a : Drafting σ α).run.run d = (.ok a, d) := rfl

@[simp]
theorem run_get : (get : Drafting σ (Draft σ)).run.run d = (.ok d, d) := rfl

@[simp]
theorem run_set (d' : Draft σ) : (set d' : Drafting σ PUnit).run.run d = (.ok ⟨⟩, d') := rfl

@[simp]
theorem run_modify (f : Draft σ → Draft σ) :
    (modify f : Drafting σ PUnit).run.run d = (.ok ⟨⟩, f d) := rfl

@[simp]
theorem run_modifyGet (f : Draft σ → α × Draft σ) :
    (modifyGet f : Drafting σ α).run.run d = (.ok (f d).1, (f d).2) := rfl

@[simp]
theorem run_throw (e : Error) : (throw e : Drafting σ α).run.run d = (.error e, d) := rfl

@[simp]
theorem run_lift (result : Except Error α) :
    (liftM result : Drafting σ α).run.run d = (result, d) := rfl

end Drafting

theorem filterMap_cons_toList (f : α → Option β) (a : α) (as : List α) :
    (a :: as).filterMap f = (f a).toList ++ as.filterMap f := by
  cases found : f a <;> simp [found]

theorem toArray_filterMap_cons (f : α → Option β) (a : α) (as : List α) :
    ((a :: as).filterMap f).toArray = (f a).toArray ++ (as.filterMap f).toArray := by
  cases found : f a <;> simp [found]

/-! ## Workspaces at work -/

/-- The workspace of a block that has come to this text and these rows.  Its destination is bound,
and it holds styles only while a fragment is being written. -/
def Workspace.holding (text : String) (rows : Array GutterRow) (css : String := "") : Workspace :=
  ⟨⟨some text⟩, css, rows, ""⟩

/-- Whatever a workspace held, nothing of it is found by the next block. -/
theorem Workspace.acquire_eq (w : Workspace) : w.acquire = .holding "" #[] := rfl

theorem Workspace.reset_eq (w : Workspace) : w.reset = {} := rfl

namespace Draft

variable {progress : Progress} {state : Option σ} {styles : StyleCache} {text css : String}
  {rows : Array GutterRow} {notices : Array Notice} {requests : Array (Request σ)}

/-- Markup is written behind the text of the block. -/
theorem write_run (markup : List Piece) :
    (write markup).run.run ⟨progress, state, styles, .holding text rows css, notices, requests⟩ =
      (.ok ⟨⟩, ⟨progress, state, styles,
        .holding (text ++ toText markup) rows css, notices, requests⟩) := by
  simp only [write, Workspace.holding, Drafting.run_bind, Drafting.run_get,
    OutputBuffer.appendMarkup_bound, Drafting.run_lift, Drafting.run_set]

theorem addRow_run (row : GutterRow) :
    (addRow row).run.run ⟨progress, state, styles, .holding text rows css, notices, requests⟩ =
      (.ok ⟨⟩, ⟨progress, state, styles,
        .holding text (rows.push row) css, notices, requests⟩) := rfl

theorem setCss_run (css' : String) :
    (setCss css').run.run ⟨progress, state, styles, .holding text rows css, notices, requests⟩ =
      (.ok ⟨⟩, ⟨progress, state, styles, .holding text rows css', notices, requests⟩) := rfl

theorem resolve_run (stylist : Stylist) (scopes : List String) (w : Workspace) :
    (resolve stylist scopes).run.run ⟨progress, state, styles, w, notices, requests⟩ =
      (.ok (styles.resolve stylist scopes).1,
        ⟨progress, state, (styles.resolve stylist scopes).2, w, notices, requests⟩) := rfl

/-- A token writes its fragment with the styles for its scopes, or leaves a notice. -/
theorem addToken_run (stylist : Stylist) (index : Nat) (code : String) (token : Token) :
    let styled := styles.styleFragments stylist (token.fragment? code).toList
    (addToken stylist index code token).run.run
        ⟨progress, state, styles, .holding text rows, notices, requests⟩ =
      (.ok ⟨⟩, ⟨progress, state, styled.2,
        .holding (text ++ toText (styled.1.flatMap Fragment.markup)) rows,
        notices ++ (token.notice? index code).toArray, requests⟩) := by
  cases found : token.fragment? code with
  | none => simp [addToken, found, Token.notice?, StyleCache.styleFragments]
  | some fragment =>
    simp only [addToken, found, Drafting.run_bind, resolve_run, setCss_run, Drafting.run_get,
      write_run]
    simp [Token.notice?, found, StyleCache.styleFragments, Fragment.markup, Workspace.holding]

/-- The tokens of a line are styled and written one after the other; those that cut nothing out are
noted. -/
theorem addTokens_run (stylist : Stylist) (index : Nat) (code : String) (tokens : List Token) :
    let styled := styles.styleFragments stylist (tokens.filterMap (Token.fragment? code))
    (forM tokens (addToken stylist index code)).run.run
        ⟨progress, state, styles, .holding text rows, notices, requests⟩ =
      (.ok ⟨⟩, ⟨progress, state, styled.2,
        .holding (text ++ toText (styled.1.flatMap Fragment.markup)) rows,
        notices ++ (tokens.filterMap (Token.notice? index code)).toArray, requests⟩) := by
  induction tokens generalizing styles text notices with
  | nil =>
    rw [List.forM_nil, Drafting.run_pure]
    simp [StyleCache.styleFragments]
  | cons token tokens ih =>
    have fragments := filterMap_cons_toList (Token.fragment? code) token tokens
    have stray := toArray_filterMap_cons (Token.notice? index code) token tokens
    simp only [List.forM_cons, Drafting.run_bind, addToken_run, ih]
    rw [fragments, stray, StyleCache.styleFragments_append]
    simp [String.append_assoc]

/-- The numbers that a line passes over are written in front of it and put into the gutter. -/
theorem addSkipped_run (skipped : List NumberRange) :
    (forM skipped addSkipped).run.run
      ⟨progress, state, styles, .holding text rows, notices, requests⟩ =
      (.ok ⟨⟩, ⟨progress, state, styles,
        .holding (text ++ toText (skipped.flatMap skippedLine))
          (rows ++ (skipped.map GutterRow.skipped).toArray),
        notices, requests⟩) := by
  induction skipped generalizing text rows with
  | nil =>
    rw [List.forM_nil, Drafting.run_pure]
    simp
  | cons r skipped ih =>
    simp only [List.forM_cons, Drafting.run_bind, addSkipped, write_run, addRow_run, ih]
    simp [String.append_assoc]

/-! ## Lines -/

variable (tokenizer : Tokenizer γ σ) (stylist : Stylist) (grammar : γ) (fence : Fence)

theorem obey_run (index : Nat) (line : String) (w : Workspace) :
    (obey fence index line).run.run ⟨progress, state, styles, w, notices, requests⟩ =
      ((progress.passLine fence index line).2,
        ⟨(progress.passLine fence index line).1, state, styles, w, notices, requests⟩) := rfl

variable {index : Nat} {line : String} {progress' : Progress}

theorem addLine_run_unknown {e : Error}
    (passed : progress.passLine fence index line = (progress', .error e)) :
    (addLine tokenizer stylist grammar fence index line).run.run
        ⟨progress, state, styles, .holding text rows, notices, requests⟩ =
      (.error e, ⟨progress', state, styles, .holding text rows, notices, requests⟩) := by
  simp only [addLine, Drafting.run_bind, obey_run, passed]

/-- A line at which the tokenizer fails, when its beginning is already written. -/
theorem addLine_run_failed {note : LineNote} {detail : String}
    (passed : progress.passLine fence index line = (progress', .ok note))
    (failed : tokenizer.tokenize grammar (DirectiveComment.split line).code state = .error detail) :
    ∃ w, (addLine tokenizer stylist grammar fence index line).run.run
        ⟨progress, state, styles, .holding text rows, notices, requests⟩ =
      (.error (.tokenizer detail),
        ⟨progress', none, styles, w, notices,
          requests.push ⟨(DirectiveComment.split line).code, state⟩⟩) := by
  simp only [addLine, Drafting.run_bind, obey_run, passed, addSkipped_run, write_run, tokenize,
    Drafting.run_get, Drafting.run_set, failed, Drafting.run_throw]
  exact ⟨_, rfl⟩

/-- A line that nothing is wrong with. -/
theorem addLine_run_ok {note : LineNote} {tokens : List Token} {state' : σ}
    (passed : progress.passLine fence index line = (progress', .ok note))
    (tokenized :
      tokenizer.tokenize grammar (DirectiveComment.split line).code state = .ok (tokens, state')) :
    let code := (DirectiveComment.split line).code
    let styled := styles.styleFragments stylist (tokens.filterMap (Token.fragment? code))
    (addLine tokenizer stylist grammar fence index line).run.run
        ⟨progress, state, styles, .holding text rows, notices, requests⟩ =
      (.ok ⟨⟩, ⟨progress', some state', styled.2,
        .holding (text ++ toText (ListingLine.markup ⟨note, styled.1⟩))
          (rows ++ note.gutter.toArray),
        notices ++ (tokens.filterMap (Token.notice? index code)).toArray,
        requests.push ⟨code, state⟩⟩) := by
  simp only [addLine, Drafting.run_bind, obey_run, passed, addSkipped_run, write_run, tokenize,
    Drafting.run_get, Drafting.run_set, tokenized, Drafting.run_modify, Drafting.run_pure,
    addTokens_run]
  cases numbered : note.number with
  | none =>
    rw [Drafting.run_pure]
    simp [ListingLine.markup, element, LineNote.gutter, numbered, String.append_assoc]
  | some n =>
    rw [addRow_run]
    simp [ListingLine.markup, element, LineNote.gutter, numbered, String.append_assoc]

/-! ## All lines of a block -/

/-- The draft `d'` holds what the transcript `t` says of the lines that were written behind `d`,
which had come to this text and these rows.  If a line has failed, nothing is said of the
workspace. -/
structure Follows (text : String) (rows : Array GutterRow) (t : Transcript σ) (d d' : Draft σ) :
    Prop where
  progress : d'.progress = t.progress
  styles : d'.styles = (d.styles.styleLines stylist t.lines).2
  notices : d'.notices = d.notices ++ t.notices.toArray
  requests : d'.requests = d.requests ++ t.requests.toArray
  workspace : t.failure = none →
    d'.workspace = .holding
      (text ++ toText ((d.styles.styleLines stylist t.lines).1.flatMap ListingLine.markup))
      (rows ++ (t.lines.flatMap (·.note.gutter)).toArray)

/-- The lines of a block come to their transcript, whatever stands in the workspace in front of
them. -/
theorem addLines_run (index : Nat) (lines : List String) :
    let t := Transcript.fromLine tokenizer grammar fence index progress state lines
    let d : Draft σ := ⟨progress, state, styles, .holding text rows, notices, requests⟩
    ∃ d', (addLines tokenizer stylist grammar fence index lines).run.run d =
        (t.failure.elim (.ok ⟨⟩) .error, d') ∧
      Follows stylist text rows t d d' := by
  induction lines generalizing index progress state styles text rows notices requests with
  | nil =>
    refine ⟨_, Drafting.run_pure _ _, ?_⟩
    constructor <;> simp [Transcript.fromLine, StyleCache.styleLines]
  | cons line lines ih =>
    intro t d
    unfold addLines
    rw [Drafting.run_bind]
    rcases passed : progress.passLine fence index line with ⟨progress', e | note⟩
    · have shown : t = _ := Transcript.fromLine_unknown tokenizer grammar fence lines passed
      rw [shown, addLine_run_unknown tokenizer stylist grammar fence passed]
      refine ⟨_, rfl, ?_⟩
      constructor <;> simp [d, StyleCache.styleLines]
    · rcases answer : tokenizer.tokenize grammar (DirectiveComment.split line).code state with
        detail | ⟨tokens, state'⟩
      · have shown : t = _ := Transcript.fromLine_failed tokenizer grammar fence lines passed answer
        obtain ⟨w, run⟩ := addLine_run_failed tokenizer stylist grammar fence passed answer
        rw [shown, run]
        refine ⟨_, rfl, ?_⟩
        constructor <;> simp [d, StyleCache.styleLines]
      · have shown : t = _ := Transcript.fromLine_ok tokenizer grammar fence lines passed answer
        rw [shown, addLine_run_ok tokenizer stylist grammar fence passed answer]
        obtain ⟨d', run, follows⟩ := ih (index + 1)
        refine ⟨d', run, ?_⟩
        constructor
        · exact follows.progress
        · exact follows.styles
        · rw [follows.notices]
          simp [d, Transcript.cons]
        · rw [follows.requests]
          simp [d, Transcript.cons]
        · intro complete
          rw [follows.workspace complete]
          simp [d, Transcript.cons, StyleCache.styleLines, String.append_assoc]

/-! ## The whole block -/

/-- At the end the code is closed, the gutter written if there is a number in it, and the frame
closed. -/
theorem close_run :
    close.run.run ⟨progress, state, styles, .holding text rows, notices, requests⟩ =
      (.ok ⟨⟩, ⟨progress, state, styles,
        .holding (text ++ toText (.closeTag "code" ::
          (if progress.anyNumbered then gutterMarkup rows.toList else []) ++
            [.closeTag "pre"])) rows,
        notices, requests⟩) := by
  cases numbered : progress.anyNumbered with
  | false =>
    simp only [close, Drafting.run_bind, write_run, Drafting.run_get, numbered, Bool.false_eq_true,
      if_false]
    simp [String.append_assoc]
  | true =>
    simp only [close, Drafting.run_bind, write_run, Drafting.run_get, numbered, if_true]
    simp [Workspace.holding, String.append_assoc]

/-- A block comes to the text of its lines, its gutter and the closing tags, or to the first
failure. -/
theorem body_run (styles : StyleCache) (lines : List String) :
    let t := Transcript.ofLines tokenizer grammar fence lines
    let styled := styles.styleLines stylist t.lines
    let rows := t.lines.flatMap (·.note.gutter)
    ∃ d', (body tokenizer stylist grammar fence lines).run.run
          (start fence.numbering styles (.holding "" #[])) =
        (match t.failure with
          | some e => .error e
          | none => .ok (toText (styled.1.flatMap ListingLine.markup ++ .closeTag "code" ::
              (if t.progress.anyNumbered then gutterMarkup rows else []) ++ [.closeTag "pre"])),
                d') ∧
      d'.progress = t.progress ∧ d'.styles = styled.2 ∧ d'.notices = t.notices.toArray ∧
      d'.requests = t.requests.toArray := by
  intro t styled rows
  obtain ⟨d', run, follows⟩ : ∃ d', (addLines tokenizer stylist grammar fence 0 lines).run.run
        (start fence.numbering styles (.holding "" #[])) = (t.failure.elim (.ok ⟨⟩) .error, d') ∧
      Follows stylist "" #[] t (start fence.numbering styles (.holding "" #[])) d' :=
    addLines_run tokenizer stylist grammar fence 0 lines
  have noticed : d'.notices = t.notices.toArray := by rw [follows.notices]; simp [start]
  have asked : d'.requests = t.requests.toArray := by rw [follows.requests]; simp [start]
  unfold body
  rw [Drafting.run_bind, run]
  cases complete : t.failure with
  | some e => exact ⟨d', rfl, follows.progress, follows.styles, noticed, asked⟩
  | none =>
    have holds := follows.workspace complete
    obtain ⟨progress, state, remembered, w, notices, requests⟩ := d'
    obtain rfl : w = .holding (toText (styled.1.flatMap ListingLine.markup)) rows.toArray := by
      simpa [start, styled, rows] using holds
    obtain rfl : progress = t.progress := follows.progress
    simp only [Option.elim, Drafting.run_bind, close_run, Drafting.run_get, Drafting.run_lift]
    simp only [Workspace.holding, OutputBuffer.flush_bound, OutputBuffer.contents_bound]
    refine ⟨_, Prod.ext (congrArg Except.ok ?_) rfl, rfl, follows.styles, noticed, asked⟩
    simp [t, rows]

end Draft

end CodeListing
