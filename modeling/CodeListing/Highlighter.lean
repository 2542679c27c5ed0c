import CodeListing.CodeBlock
import CodeListing.Draft
import CodeListing.Fence.Reader

/-!
# Highlighting code blocks

A `Highlighter` shows one code block after the other.  What it keeps between blocks, the styles
already worked out and the workspace that blocks are written in, serves speed alone.

A block that cannot be highlighted goes to the fallback.  A block with an unknown directive, or one
at which the tokenizer fails, is an error, and nothing of it is shown.
-/

namespace CodeListing

/-- Shows code blocks, one after the other. -/
structure Highlighter (γ σ : Type) where
  tokenizer : Tokenizer γ σ
  stylist : Stylist
  fallback : Fallback
  config : Config
  /-- The styles worked out so far. -/
  styles : StyleCache := .empty
  /-- What blocks are written in. -/
  workspace : Workspace := {}

/-- How a block is shown. -/
inductive Outcome
  | highlighted (anyFocused anyNumbered : Bool)
  | fallback (reason : FallbackReason)
  deriving DecidableEq, Repr

/-- What has come of showing a block. -/
structure Rendering (γ σ : Type) where
  outcome : Except Error Outcome
  /-- The output with the block behind what it held before. -/
  out : String
  /-- The block with what has been attached to it. -/
  block : CodeBlock
  notices : List Notice := []
  /-- What the tokenizer was asked. -/
  requests : List (Request σ) := []
  /-- The highlighter for the next block. -/
  highlighter : Highlighter γ σ

namespace Highlighter

variable {γ σ : Type}

/-- Shows a block by the fallback. -/
def fallBack (h : Highlighter γ σ) (block : CodeBlock) (out : String) (reason : FallbackReason)
    (notices : List Notice) : Rendering γ σ :=
  let (text, result) := h.fallback block
  { outcome := result.map fun () => .fallback reason
    out := out ++ text
    block
    notices := notices ++ [.plain reason]
    highlighter := h }

/-- The tags in front of the lines of a listing. -/
def opening (fence : Fence) (anyFocused : Bool) : List Markup.Piece :=
  [.openTag "pre" (listingAttributes fence.language fence.group anyFocused), .openTag "code" []]

/-- Shows a block for whose language there is a grammar.  The opening tags say whether a line has
the focus, so they are written when all lines are done. -/
def highlight (h : Highlighter γ σ) (block : CodeBlock) (out : String) (fence : Fence)
    (grammar : γ) :
    Rendering γ σ :=
  let start := Draft.start fence.numbering h.styles h.workspace.acquire
  let (body, draft) := (Draft.body h.tokenizer h.stylist grammar fence block.lines).run.run start
  let progress := draft.progress
  { outcome := body.map fun _ => .highlighted progress.anyFocused progress.anyNumbered
    out := match body with
      | .error _ => out
      | .ok body => out ++ Markup.toText (opening fence progress.anyFocused) ++ body
    block
    notices := draft.notices.toList
    requests := draft.requests.toList
    highlighter := { h with styles := draft.styles, workspace := draft.workspace.reset } }

/-- Shows a block behind `out`.  The group that its fence names is attached to it, whatever comes
after. -/
def render (h : Highlighter γ σ) (block : CodeBlock) (out : String) : Rendering γ σ :=
  match block.kind with
  | .indented => h.fallBack block out .notFenced []
  | .fenced =>
    let info := block.infoString h.config.infoPrefix
    match Fence.ofText? h.config info with
    | none => h.fallBack block out .noLanguage [.noLanguage info]
    | some fence =>
      let block := match fence.group with
        | some group => block.attach CodeBlock.groupKey group
        | none => block
      match h.tokenizer.grammar? fence.language with
      | none => h.fallBack block out (.noGrammar fence.language) []
      | some grammar => h.highlight block out fence grammar

end Highlighter

end CodeListing
