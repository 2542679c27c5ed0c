import CodeListing.Highlighter
import CodeListing.Proofs.Draft

/-!
# What a highlighter shows

`Highlighter.plan` says what is done with a block before any of it is written: it is highlighted by
a fence and a grammar, or shown as plain text for a reason.  `Highlighter.render_eq` takes every way
through `Highlighter.render` apart by the plan, and `Highlighter.highlight_eq` says what
highlighting comes to: the listing of the block's transcript, written as a whole.
-/

namespace CodeListing

open Markup

variable {γ σ : Type}

/-- What stands in front of the lines and behind them makes a listing of them. -/
theorem toText_listing (fence : Fence) (t : Transcript σ) (lines : List (ListingLine StylePair)) :
    toText (Highlighter.opening fence t.progress.anyFocused) ++
        toText (lines.flatMap ListingLine.markup ++ .closeTag "code" ::
          (if t.progress.anyNumbered then gutterMarkup (t.lines.flatMap (·.note.gutter)) else []) ++
            [.closeTag "pre"]) =
      toText (element "pre" (listingAttributes fence.language fence.group t.progress.anyFocused)
        (element "code" [] (lines.flatMap ListingLine.markup) ++
          if t.progress.anyNumbered then gutterMarkup (t.lines.flatMap (·.note.gutter))
          else [])) := by
  simp [Highlighter.opening, element, String.append_assoc]

namespace StyleCache

theorem note_styleLines (stylist : Stylist) (c : StyleCache)
    (lines : List (ListingLine (List String))) :
    (c.styleLines stylist lines).1.map (·.note) = lines.map (·.note) := by
  induction lines generalizing c with
  | nil => rfl
  | cons l lines ih => simp [styleLines, ih]

end StyleCache

namespace Highlighter

variable (h : Highlighter γ σ) (block : CodeBlock) (out : String)

/-! ## The plan for a block -/

/-- What the fence of a block says, if it has one and it names a language. -/
def fence? : Option Fence :=
  match block.kind with
  | .fenced => Fence.ofText? h.config (block.infoString h.config.infoPrefix)
  | .indented => none

/-- The fence and the grammar that a block is highlighted by, or the reason why it is not. -/
def plan : Except FallbackReason (Fence × γ) :=
  match block.kind with
  | .indented => .error .notFenced
  | .fenced =>
    match h.fence? block with
    | none => .error .noLanguage
    | some fence =>
      match h.tokenizer.grammar? fence.language with
      | none => .error (.noGrammar fence.language)
      | some grammar => .ok (fence, grammar)

/-- The notices in front of the one that a block is shown as plain text. -/
def planNotices : FallbackReason → List Notice
  | .noLanguage => [.noLanguage (block.infoString h.config.infoPrefix)]
  | _ => []

/-- The block with its group attached, if its fence names one. -/
def attachGroup : CodeBlock :=
  match (h.fence? block).bind (·.group) with
  | some group => block.attach CodeBlock.groupKey group
  | none => block

/-- A block is shown by its plan. -/
theorem render_eq :
    h.render block out =
      match h.plan block with
      | .error reason => h.fallBack (h.attachGroup block) out reason (h.planNotices block reason)
      | .ok (fence, grammar) => h.highlight (h.attachGroup block) out fence grammar := by
  cases kind : block.kind with
  | indented => simp [render, plan, attachGroup, fence?, planNotices, kind]
  | fenced =>
    cases read : Fence.ofText? h.config (block.infoString h.config.infoPrefix) with
    | none => simp [render, plan, attachGroup, fence?, planNotices, kind, read]
    | some fence =>
      cases known : h.tokenizer.grammar? fence.language with
      | none =>
        cases grouped : fence.group <;>
          simp only [render, plan, attachGroup, fence?, planNotices, kind, read, known,
            Option.bind_some, grouped]
      | some grammar =>
        cases grouped : fence.group <;>
          simp only [render, plan, attachGroup, fence?, kind, read, known, Option.bind_some,
            grouped]

/-! ## Highlighting -/

/-- A highlighted block is the listing of its transcript behind what was there before; a block that
fails leaves nothing behind.  Either way the workspace is as new. -/
theorem highlight_eq (fence : Fence) (grammar : γ) :
    let t := Transcript.ofLines h.tokenizer grammar fence block.lines
    let styled := h.styles.styleLines h.stylist t.lines
    h.highlight block out fence grammar = {
      outcome := (t.listing? fence).map fun l => .highlighted l.anyFocused l.anyNumbered
      out := match t.listing? fence with
        | .error _ => out
        | .ok l => out ++ toText (Listing.markup { l with lines := styled.1 })
      block
      notices := t.notices
      requests := t.requests
      highlighter := { h with styles := styled.2, workspace := {} } } := by
  intro t styled
  obtain ⟨d, run, progress, styles, notices, requests⟩ :=
    Draft.body_run h.tokenizer h.stylist grammar fence h.styles block.lines
  have sameRows : styled.1.flatMap (·.note.gutter) = t.lines.flatMap (·.note.gutter) := by
    have notes := h.styles.note_styleLines h.stylist t.lines
    simpa [List.flatMap_map] using congrArg (List.flatMap LineNote.gutter) notes
  simp only [highlight, Workspace.acquire_eq, run, Workspace.reset_eq, Transcript.listing?]
  change d.progress = t.progress at progress
  change d.notices = t.notices.toArray at notices
  change d.requests = t.requests.toArray at requests
  rw [progress, notices, requests, styles]
  cases complete : t.failure with
  | some e => simp [t, Except.map, styled]
  | none =>
    have whole := toText_listing fence t styled.1
    simp only [Listing.markup, Listing.gutter, Listing.gutterRows, sameRows, ← whole]
    simp [t, Except.map, styled, String.append_assoc]

/-- The listing that a block comes to with this fence and this grammar, if none of its lines
fails. -/
def listing (fence : Fence) (grammar : γ) : Listing StylePair :=
  let t := Transcript.ofLines h.tokenizer grammar fence block.lines
  { language := fence.language
    group := fence.group
    anyFocused := t.progress.anyFocused
    anyNumbered := t.progress.anyNumbered
    lines := (h.styles.styleLines h.stylist t.lines).1 }

theorem attachGroup_lines : (h.attachGroup block).lines = block.lines := by
  unfold attachGroup
  split <;> rfl

/-- A block with a plan ends as its transcript does. -/
theorem render_of_plan {fence : Fence} {grammar : γ}
    (planned : h.plan block = .ok (fence, grammar)) :
    let t := Transcript.ofLines h.tokenizer grammar fence block.lines
    (h.render block out).outcome =
        (t.listing? fence).map (fun l => .highlighted l.anyFocused l.anyNumbered) ∧
      (h.render block out).requests = t.requests ∧
      (t.failure = none →
        (h.render block out).out = out ++ toText (h.listing block fence grammar).markup) := by
  intro t
  rw [render_eq, planned]
  simp only [highlight_eq, attachGroup_lines]
  refine ⟨rfl, rfl, fun complete => ?_⟩
  change (match t.listing? fence with | .error _ => out | .ok l => out ++ toText _) = _
  rw [Transcript.listing?, complete]
  rfl

/-- Only a block with a plan whose lines have all been done is highlighted. -/
theorem plan_of_highlighted {anyFocused anyNumbered : Bool}
    (shown : (h.render block out).outcome = .ok (.highlighted anyFocused anyNumbered)) :
    ∃ fence grammar, h.plan block = .ok (fence, grammar) ∧
      (Transcript.ofLines h.tokenizer grammar fence block.lines).failure = none ∧
      (h.listing block fence grammar).anyFocused = anyFocused ∧
      (h.listing block fence grammar).anyNumbered = anyNumbered := by
  cases planned : h.plan block with
  | error reason =>
    rw [render_eq, planned] at shown
    simp only [fallBack] at shown
    cases result : (h.fallback (h.attachGroup block)).2 <;> simp [result, Except.map] at shown
  | ok plan =>
    obtain ⟨fence, grammar⟩ := plan
    rw [(h.render_of_plan block out planned).1, Transcript.listing?] at shown
    cases failed : (Transcript.ofLines h.tokenizer grammar fence block.lines).failure with
    | some e => simp [failed, Except.map] at shown
    | none =>
      simp only [failed, Except.map, Except.ok.injEq, Outcome.highlighted.injEq] at shown
      exact ⟨fence, grammar, rfl, failed, shown.1, shown.2⟩

end Highlighter

end CodeListing
