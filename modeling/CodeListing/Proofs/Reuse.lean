import Mathlib.Data.List.Forall2
import CodeListing.Proofs.Highlighter
import CodeListing.Proofs.StyleCache

/-!
# Highlighters used again

Whatever blocks a highlighter has shown before, it shows the next one as a new highlighter would.
What it keeps between blocks is described by one invariant, `Highlighter.Continues`: the remembered
styles are those that the stylist gives, and the workspace is as new.  Every block keeps it, also
one that has failed at some line with rows in the gutter and text in the buffer.
-/

namespace CodeListing

variable {γ σ : Type}

/-! ## Highlighters between blocks -/

/-- Behind the text `out`, the rendering `r` shows what `alone` shows behind none. -/
structure Rendering.Repeats (alone : Rendering γ σ) (out : String) (r : Rendering γ σ) : Prop where
  outcome : r.outcome = alone.outcome
  out : r.out = out ++ alone.out
  block : r.block = alone.block
  notices : r.notices = alone.notices
  requests : r.requests = alone.requests

namespace Highlighter

/-- A highlighter that has not shown anything. -/
def new (tokenizer : Tokenizer γ σ) (stylist : Stylist) (fallback : Fallback) (config : Config) :
    Highlighter γ σ :=
  { tokenizer, stylist, fallback, config }

/-- The highlighter `h` may come after the highlighter `first`: it has the same parts, remembers
nothing but what the stylist says, and its workspace is as new. -/
structure Continues (first h : Highlighter γ σ) : Prop where
  tokenizer : h.tokenizer = first.tokenizer
  stylist : h.stylist = first.stylist
  fallback : h.fallback = first.fallback
  config : h.config = first.config
  styles : h.styles.Sound first.stylist
  workspace : h.workspace = {}

theorem continues_new (tokenizer : Tokenizer γ σ) (stylist : Stylist) (fallback : Fallback)
    (config : Config) :
    Continues (new tokenizer stylist fallback config) (new tokenizer stylist fallback config) :=
  ⟨rfl, rfl, rfl, rfl, StyleCache.sound_empty stylist, rfl⟩

variable {first h k : Highlighter γ σ}

/-- What is planned for a block does not hang on the blocks before it. -/
theorem Continues.plan_eq (later : Continues first h) (block : CodeBlock) :
    h.plan block = first.plan block ∧ h.attachGroup block = first.attachGroup block ∧
      h.planNotices block = first.planNotices block := by
  have fence : h.fence? block = first.fence? block := by simp only [fence?, later.config]
  refine ⟨?_, ?_, ?_⟩
  · simp only [plan, fence, later.tokenizer]
  · simp only [attachGroup, fence]
  · funext reason
    cases reason <;> simp only [planNotices, later.config]

/-- One block: both highlighters show the same of it, and what comes next may follow on the first
again. -/
theorem Continues.render (later : Continues first h) (also : Continues first k) (block : CodeBlock)
    (out : String) :
    Rendering.Repeats (k.render block "") out (h.render block out) ∧
      Continues first (h.render block out).highlighter := by
  obtain ⟨plan, group, notices⟩ := later.plan_eq block
  obtain ⟨plan', group', notices'⟩ := also.plan_eq block
  rw [render_eq, render_eq, plan, plan', group, group', notices, notices']
  cases first.plan block with
  | error reason =>
    simp only [fallBack, later.fallback, also.fallback]
    exact ⟨⟨rfl, by simp, rfl, rfl, rfl⟩, later⟩
  | ok planned =>
    obtain ⟨fence, grammar⟩ := planned
    simp only [highlight_eq, later.tokenizer, later.stylist, also.tokenizer, also.stylist]
    obtain ⟨lines, sound⟩ := StyleCache.styleLines_of_sound later.styles
      (Transcript.ofLines first.tokenizer grammar fence (first.attachGroup block).lines).lines
    obtain ⟨lines', -⟩ := StyleCache.styleLines_of_sound also.styles
      (Transcript.ofLines first.tokenizer grammar fence (first.attachGroup block).lines).lines
    refine ⟨⟨rfl, ?_, rfl, rfl, rfl⟩, ⟨rfl, rfl, later.fallback, later.config, sound, rfl⟩⟩
    rw [lines, lines']
    cases (Transcript.ofLines first.tokenizer grammar fence
      (first.attachGroup block).lines).listing? fence <;>
      simp

/-- Shows blocks one after the other, each behind the text that is given with it. -/
def renderAll (h : Highlighter γ σ) : List (CodeBlock × String) → List (Rendering γ σ)
  | [] => []
  | (block, out) :: blocks =>
    let r := h.render block out
    r :: r.highlighter.renderAll blocks

/-- Whatever is shown of blocks in a row, each of them is shown as it is by itself. -/
theorem Continues.renderAll (later : Continues first h) (also : Continues first k)
    (blocks : List (CodeBlock × String)) :
    List.Forall₂ (fun b r => Rendering.Repeats (k.render b.1 "") b.2 r) blocks
      (h.renderAll blocks) := by
  induction blocks generalizing h with
  | nil => exact .nil
  | cons b blocks ih =>
    obtain ⟨block, out⟩ := b
    obtain ⟨repeats, next⟩ := later.render also block out
    exact .cons repeats (ih next)

/-- **Using a highlighter again is not seen.**  Of any blocks shown one after the other, some
highlighted, some shown as plain text and some failing in the middle, each is shown as a new
highlighter shows it alone. -/
theorem renderAll_new (tokenizer : Tokenizer γ σ) (stylist : Stylist) (fallback : Fallback)
    (config : Config) (blocks : List (CodeBlock × String)) :
    List.Forall₂
      (fun b r => Rendering.Repeats ((new tokenizer stylist fallback config).render b.1 "") b.2 r)
      blocks ((new tokenizer stylist fallback config).renderAll blocks) :=
  (continues_new tokenizer stylist fallback config).renderAll (continues_new _ _ _ _) blocks

end Highlighter

end CodeListing
