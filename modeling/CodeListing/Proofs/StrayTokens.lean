import CodeListing.Listing.Fault
import CodeListing.Proofs.Reuse
import CodeListing.Proofs.SourceText
import CodeListing.Tokenizer

/-!
# Stray tokens do no harm

A token that cuts nothing out of its line is passed over with a notice, and nothing else comes of
it.  `Transcript.fromLine_withoutStrays` compares the lines of a block, once as the tokenizer takes
them apart and once without its strays; `Highlighter.render_withoutStrays` does so for whole blocks,
and `Highlighter.renderAll_withoutStrays` for blocks that are shown one after the other.
-/

namespace CodeListing

open Markup

variable {γ σ : Type}

/-! ## Tokens and their fragments -/

namespace Token

variable {t : Token} {code : String}

/-- The fragment of a token is what its span holds. -/
theorem fragment?_eq_some_iff {f : Fragment (List String)} :
    t.fragment? code = some f ↔ t.Spans code.toList f.code.toList ∧ f.tag = t.scopes := by
  rw [fragment?, Option.map_eq_some_iff]
  constructor
  · rintro ⟨inside, cut, rfl⟩
    rw [String.toList_ofList]
    exact ⟨Text.slice?_eq_some_iff.1 cut, rfl⟩
  · rintro ⟨spans, scopes⟩
    refine ⟨f.code.toList, Text.slice?_eq_some_iff.2 spans, ?_⟩
    rw [String.ofList_toList, ← scopes]

/-- A token cuts a line if some text of the line is its span. -/
theorem cuts_iff_spans {line : List Char} : t.Cuts line ↔ ∃ text, t.Spans line text := by
  constructor
  · rintro ⟨ordered, ⟨before, behind, rfl, size⟩, stop⟩
    obtain ⟨inside, rest, rfl, size'⟩ := stop.behind (size ▸ ordered)
    exact ⟨inside, before, rest, rfl, size.symm, by rw [size', Text.byteLength_append]⟩
  · rintro ⟨text, before, behind, rfl, start, stop⟩
    have sum := Text.byteLength_append before text
    refine ⟨by omega, ⟨before, text ++ behind, rfl, start.symm⟩, before ++ text, behind, ?_,
      stop.symm⟩
    rw [List.append_assoc]

/-- A token without a fragment is a stray. -/
theorem fragment?_eq_none_iff : t.fragment? code = none ↔ ¬ t.Cuts code.toList := by
  rw [cuts_iff_spans, Option.eq_none_iff_forall_ne_some]
  constructor
  · rintro none ⟨text, spans⟩
    refine none ⟨String.ofList text, t.scopes⟩ (fragment?_eq_some_iff.2 ⟨?_, rfl⟩)
    rwa [String.toList_ofList]
  · intro none f found
    exact none ⟨_, (fragment?_eq_some_iff.1 found).1⟩

theorem notice?_of_cuts (cuts : t.Cuts code.toList) (index : Nat) : t.notice? index code = none := by
  unfold notice?
  split
  · rfl
  · next missing => exact absurd cuts (fragment?_eq_none_iff.1 missing)

/-- Leaving strays out leaves all fragments. -/
theorem fragments_withoutStrays (code : String) (tokens : List Token) :
    (tokens.filter fun t => t.Cuts code.toList).filterMap (fragment? code) =
      tokens.filterMap (fragment? code) := by
  induction tokens with
  | nil => rfl
  | cons t tokens ih =>
    by_cases cuts : t.Cuts code.toList
    · rw [List.filter_cons_of_pos (by simpa using cuts), List.filterMap_cons, List.filterMap_cons, ih]
    · rw [List.filter_cons_of_neg (by simpa using cuts), ih,
        List.filterMap_cons_none (fragment?_eq_none_iff.2 cuts)]

theorem notices_withoutStrays (index : Nat) (code : String) (tokens : List Token) :
    (tokens.filter fun t => t.Cuts code.toList).filterMap (notice? index code) = [] := by
  rw [List.filterMap_eq_nil_iff]
  intro t mem
  exact notice?_of_cuts (of_decide_eq_true (List.mem_filter.1 mem).2) index

/-- The texts are, in the order of the tokens, what those that are no strays cut out of the line. -/
def Emit (line : String) (tokens : List Token) (texts : List String) : Prop :=
  List.Forall₂ (fun t text => t.Spans line.toList text.toList)
    (tokens.filter fun t => t.Cuts line.toList) texts

/-- The fragments of a line are the spans of its tokens that cut it, in order. -/
theorem emit_fragments (code : String) (tokens : List Token) :
    Emit code tokens ((tokens.filterMap (fragment? code)).map (·.code)) := by
  unfold Emit
  induction tokens with
  | nil => exact .nil
  | cons t tokens ih =>
    cases found : t.fragment? code with
    | none =>
      have stray := fragment?_eq_none_iff.1 found
      rw [List.filter_cons_of_neg (by simpa using stray), List.filterMap_cons_none found]
      exact ih
    | some f =>
      have spans := (fragment?_eq_some_iff.1 found).1
      have cuts := cuts_iff_spans.2 ⟨_, spans⟩
      rw [List.filter_cons_of_pos (by simpa using cuts), List.filterMap_cons_some found,
        List.map_cons]
      exact .cons spans ih

end Token

/-! ## Lines -/

namespace Tokenizer

variable {tokenizer : Tokenizer γ σ} {grammar : γ} {line : String} {state : Option σ}

theorem withoutStrays_failed {detail : String}
    (failed : tokenizer.tokenize grammar line state = .error detail) :
    tokenizer.withoutStrays.tokenize grammar line state = .error detail := by
  unfold withoutStrays
  simp only [failed]
  rfl

theorem withoutStrays_ok {tokens : List Token} {state' : σ}
    (tokenized : tokenizer.tokenize grammar line state = .ok (tokens, state')) :
    tokenizer.withoutStrays.tokenize grammar line state =
      .ok (tokens.filter fun t => t.Cuts line.toList, state') := by
  unfold withoutStrays
  simp only [tokenized]
  rfl

end Tokenizer

/-- Whether the notice is about a stray token. -/
def Notice.isStray : Notice → Bool
  | .strayToken .. => true
  | _ => false

/-- What a token warns of is its being a stray. -/
theorem Token.isStray_of_notice? {t : Token} {index : Nat} {code : String} {notice : Notice}
    (noticed : t.notice? index code = some notice) : notice.isStray = true := by
  unfold notice? at noticed
  split at noticed
  · cases noticed
  · obtain rfl := Option.some.inj noticed
    rfl

namespace Transcript

variable (tokenizer : Tokenizer γ σ) (grammar : γ) (fence : Fence)

/-- One step without strays; the lines behind it may come to anything. -/
theorem cons_withoutStrays (note : LineNote) (index : Nat) (request : Request σ)
    (tokens : List Token) (a : Transcript σ) :
    cons note index request (tokens.filter fun t => t.Cuts request.code.toList)
        { a with notices := [] } =
      { cons note index request tokens a with notices := [] } := by
  rw [cons, cons, Token.fragments_withoutStrays, Token.notices_withoutStrays]
  rfl

/-- Without its strays a tokenizer makes the same of the lines of a block, and no notices. -/
theorem fromLine_withoutStrays (index : Nat) (progress : Progress) (state : Option σ)
    (lines : List String) :
    fromLine tokenizer.withoutStrays grammar fence index progress state lines =
      { fromLine tokenizer grammar fence index progress state lines with notices := [] } := by
  induction lines generalizing index progress state with
  | nil => rfl
  | cons line lines ih =>
    rcases passed : progress.passLine fence index line with ⟨progress', e | note⟩
    · rw [fromLine_unknown _ grammar fence lines passed, fromLine_unknown _ grammar fence lines passed]
    · rcases answer : tokenizer.tokenize grammar (DirectiveComment.split line).code state with
        detail | ⟨tokens, state'⟩
      · have failed := Tokenizer.withoutStrays_failed answer
        rw [fromLine_failed _ grammar fence lines passed answer,
          fromLine_failed _ grammar fence lines passed failed]
      · have tokenized := Tokenizer.withoutStrays_ok answer
        rw [fromLine_ok _ grammar fence lines passed answer,
          fromLine_ok _ grammar fence lines passed tokenized, ih]
        exact cons_withoutStrays note index ⟨_, state⟩ tokens _

/-- The listing of a tokenizer without its strays is the same, with nothing to warn of. -/
theorem ofLines_withoutStrays (lines : List String) :
    ofLines tokenizer.withoutStrays grammar fence lines =
      { ofLines tokenizer grammar fence lines with notices := [] } :=
  fromLine_withoutStrays tokenizer grammar fence 0 _ none lines

/-- Notices on lines are all about strays. -/
theorem isStray_of_mem_notices (index : Nat) (progress : Progress) (state : Option σ)
    (lines : List String) {notice : Notice}
    (mem : notice ∈ (fromLine tokenizer grammar fence index progress state lines).notices) :
    notice.isStray = true := by
  induction lines generalizing index progress state with
  | nil => cases mem
  | cons line lines ih =>
    rcases passed : progress.passLine fence index line with ⟨progress', e | note⟩
    · rw [fromLine_unknown _ grammar fence lines passed] at mem
      cases mem
    · rcases answer : tokenizer.tokenize grammar (DirectiveComment.split line).code state with
        detail | ⟨tokens, state'⟩
      · rw [fromLine_failed _ grammar fence lines passed answer] at mem
        cases mem
      · rw [fromLine_ok _ grammar fence lines passed answer] at mem
        rcases List.mem_append.1 mem with here | later
        · obtain ⟨t, -, noticed⟩ := List.mem_filterMap.1 here
          exact Token.isStray_of_notice? noticed
        · exact ih _ _ _ later

/-- The tokenizer was asked about the line of code, and the line of the listing has what the tokens
of its answer cut out. -/
def Emitted {α : Type} (request : Request σ) (line : ListingLine α) : Prop :=
  ∃ tokens state, tokenizer.tokenize grammar request.code request.state = .ok (tokens, state) ∧
    Token.Emit request.code tokens (line.fragments.map (·.code))

/-- Of a block that nothing is wrong with, every line was asked about and is emitted. -/
theorem emitted_fromLine (index : Nat) (progress : Progress) (state : Option σ)
    (lines : List String)
    (complete : (fromLine tokenizer grammar fence index progress state lines).failure = none) :
    let t := fromLine tokenizer grammar fence index progress state lines
    t.requests.map (·.code) = lines.map DirectiveComment.codeOf ∧
      List.Forall₂ (Emitted tokenizer grammar) t.requests t.lines := by
  induction lines generalizing index progress state with
  | nil => exact ⟨rfl, .nil⟩
  | cons line lines ih =>
    rcases passed : progress.passLine fence index line with ⟨progress', e | note⟩
    · rw [fromLine_unknown _ grammar fence lines passed] at complete
      cases complete
    · rcases answer : tokenizer.tokenize grammar (DirectiveComment.split line).code state with
        detail | ⟨tokens, state'⟩
      · rw [fromLine_failed _ grammar fence lines passed answer] at complete
        cases complete
      · rw [fromLine_ok _ grammar fence lines passed answer] at complete ⊢
        obtain ⟨asked, emitted⟩ := ih _ _ _ complete
        refine ⟨congrArg (DirectiveComment.codeOf line :: ·) asked, .cons ?_ emitted⟩
        exact ⟨tokens, state', answer, Token.emit_fragments _ tokens⟩

end Transcript

/-- Styles leave the code of the lines alone. -/
theorem StyleCache.emitted_styleLines (stylist : Stylist) (c : StyleCache)
    {tokenizer : Tokenizer γ σ} {grammar : γ} {requests : List (Request σ)}
    {lines : List (ListingLine (List String))}
    (emitted : List.Forall₂ (Transcript.Emitted tokenizer grammar) requests lines) :
    List.Forall₂ (Transcript.Emitted tokenizer grammar) requests (c.styleLines stylist lines).1 := by
  induction emitted generalizing c with
  | nil => exact .nil
  | @cons request line requests lines first _ ih =>
    obtain ⟨tokens, state, answer, emit⟩ := first
    refine .cons ⟨tokens, state, answer, ?_⟩ (ih _)
    rwa [code_styleFragments]

/-! ## Blocks -/

/-- The rendering `clean` shows what `r` shows, but for the notices on strays; it leaves the same
workspace and the same remembered styles to the next block. -/
structure Rendering.SameWithoutStrays (r clean : Rendering γ σ) : Prop where
  outcome : clean.outcome = r.outcome
  out : clean.out = r.out
  block : clean.block = r.block
  requests : clean.requests = r.requests
  notices : clean.notices = r.notices.filter (!·.isStray)
  styles : clean.highlighter.styles = r.highlighter.styles
  highlighter : clean.highlighter =
    { r.highlighter with tokenizer := r.highlighter.tokenizer.withoutStrays }

namespace Highlighter

/-- The highlighter whose tokenizer keeps stray tokens to itself. -/
def withoutStrays (h : Highlighter γ σ) : Highlighter γ σ :=
  { h with tokenizer := h.tokenizer.withoutStrays }

/-- None of the notices on a fence, or on a fallback, is about a stray. -/
theorem planNotices_withoutStrays (h : Highlighter γ σ) (block : CodeBlock)
    (reason : FallbackReason) :
    (h.planNotices block reason ++ [Notice.plain reason]).filter (!·.isStray) =
      h.planNotices block reason ++ [Notice.plain reason] := by
  cases reason <;> rfl

/-- One block renders alike with and without strays: the outcome, the output and the cache are the
same. -/
theorem render_withoutStrays (h : Highlighter γ σ) (block : CodeBlock) (out : String) :
    (h.render block out).SameWithoutStrays (h.withoutStrays.render block out) := by
  have plan : h.withoutStrays.plan block = h.plan block := rfl
  rw [render_eq, render_eq, plan]
  cases h.plan block with
  | error reason =>
    exact ⟨rfl, rfl, rfl, rfl, (h.planNotices_withoutStrays block reason).symm, rfl, rfl⟩
  | ok planned =>
    rcases planned with ⟨fence, grammar⟩
    have lines := Transcript.ofLines_withoutStrays h.tokenizer grammar fence
      (h.attachGroup block).lines
    have stray : (Transcript.ofLines h.tokenizer grammar fence
        (h.attachGroup block).lines).notices.filter (!·.isStray) = [] := by
      rw [List.filter_eq_nil_iff]
      intro notice mem
      simp [Transcript.isStray_of_mem_notices _ _ _ _ _ _ _ mem]
    change (h.highlight _ _ _ _).SameWithoutStrays (h.withoutStrays.highlight (h.attachGroup block) _ _ _)
    rw [highlight_eq, highlight_eq]
    simp only [withoutStrays, lines]
    exact ⟨rfl, rfl, rfl, rfl, stray.symm, rfl, rfl⟩

/-- Blocks one after another render alike with and without strays, for every block leaves the same
cache behind. -/
theorem sameWithoutStrays_renderAll (h : Highlighter γ σ) (blocks : List (CodeBlock × String)) :
    List.Forall₂ Rendering.SameWithoutStrays (h.renderAll blocks)
      (h.withoutStrays.renderAll blocks) := by
  induction blocks generalizing h with
  | nil => exact .nil
  | cons b blocks ih =>
    rcases b with ⟨block, out⟩
    have first := h.render_withoutStrays block out
    refine .cons first ?_
    rw [first.highlighter]
    exact ih _

/-- The block is shown as the listing of its lines.  Each line of code is asked about, and the line
of the listing holds, in the order of the tokens, what those that are no strays cut out of it. -/
structure ShowsTokens (h : Highlighter γ σ) (block : CodeBlock) (out : String) (fence : Fence)
    (grammar : γ) : Prop where
  planned : h.plan block = .ok (fence, grammar)
  written : (h.render block out).out = out ++ toText (h.listing block fence grammar).markup
  asked : (h.render block out).requests.map (·.code) = block.lines.map DirectiveComment.codeOf
  emitted : List.Forall₂ (Transcript.Emitted h.tokenizer grammar) (h.render block out).requests
    (h.listing block fence grammar).lines

/-- A highlighted block shows the lines of its listing, whose fragments are the spans of the tokens
that cut their line. -/
theorem showsTokens_of_highlighted (h : Highlighter γ σ) (block : CodeBlock) (out : String)
    {anyFocused anyNumbered : Bool}
    (shown : (h.render block out).outcome = .ok (.highlighted anyFocused anyNumbered)) :
    ∃ fence grammar, h.ShowsTokens block out fence grammar := by
  obtain ⟨fence, grammar, planned, complete, -, -⟩ := h.plan_of_highlighted block out shown
  obtain ⟨-, requests, written⟩ := h.render_of_plan block out planned
  obtain ⟨asked, emitted⟩ := Transcript.emitted_fromLine h.tokenizer grammar fence 0
    (.start fence.numbering) none block.lines complete
  refine ⟨fence, grammar, planned, written complete, ?_, ?_⟩
  · rw [requests]
    exact asked
  · rw [requests]
    exact StyleCache.emitted_styleLines h.stylist h.styles emitted

end Highlighter

end CodeListing
