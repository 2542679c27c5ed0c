import CodeListing.Fallback
import CodeListing.Fence
import CodeListing.Line.Comment
import CodeListing.Listing
import CodeListing.Theme.Stylist
import CodeListing.Tokenizer

/-!
# From lines to a listing

The lines of a block are gone through from the first to the last.  Each gives up its directive
comment, whose words are obeyed, and then goes to the tokenizer, with the state that the line before
has left.  The first unknown word or failure of the tokenizer ends it; `Transcript` holds what has
come of the lines until then.

In a listing that is complete, `StyleCache.styleLines` puts the styles in place of the scopes.
-/

namespace CodeListing

/-- A question to a tokenizer: a line of code and the state in front of it. -/
structure Request (σ : Type) where
  code : String
  state : Option σ
  deriving DecidableEq, Repr

/-- What has come of the lines of a block. -/
structure Transcript (σ : Type) where
  /-- The lines, their fragments with the scopes of their tokens. -/
  lines : List (ListingLine (List String)) := []
  /-- What the block has seen. -/
  progress : Progress
  /-- What ended it before the last line was done. -/
  failure : Option Error := none
  notices : List Notice := []
  /-- What the tokenizer was asked. -/
  requests : List (Request σ) := []

/-- The fragment of a line of code that a token is about, unless its span cuts nothing out of the
line. -/
def Token.fragment? (code : String) (t : Token) : Option (Fragment (List String)) :=
  (Text.slice? code.toList t.start t.stop).map fun cs => ⟨String.ofList cs, t.scopes⟩

/-- The notice on a token that is about no fragment of the line at the place `index`. -/
def Token.notice? (index : Nat) (code : String) (t : Token) : Option Notice :=
  match t.fragment? code with
  | some _ => none
  | none => some (.strayToken t.start t.stop index (Text.byteLength code.toList))

/-- The effect of the line at the place `index`: of its directive comment, on top of what the fence
says. -/
def Progress.passLine (fence : Fence) (p : Progress) (index : Nat) (line : String) :
    Progress × Except Error LineNote :=
  p.pass index (if fence.highlights index then .highlighted else .plain)
    (DirectiveComment.split line).words

namespace Transcript

variable {γ σ : Type}

/-- One more line in front of the others. -/
def cons (note : LineNote) (index : Nat) (request : Request σ) (tokens : List Token)
    (a : Transcript σ) :
    Transcript σ :=
  { a with
    lines := ⟨note, tokens.filterMap (Token.fragment? request.code)⟩ :: a.lines
    notices := tokens.filterMap (Token.notice? index request.code) ++ a.notices
    requests := request :: a.requests }

/-- What comes of the lines from the place `index` on. -/
def fromLine (tokenizer : Tokenizer γ σ) (grammar : γ) (fence : Fence) (index : Nat)
    (progress : Progress) (state : Option σ) : (lines : List String) → Transcript σ
  | [] => { progress }
  | line :: lines =>
    match progress.passLine fence index line with
    | (progress, .error e) => { progress, failure := some e }
    | (progress, .ok note) =>
      let code := (DirectiveComment.split line).code
      let request := ⟨code, state⟩
      match tokenizer.tokenize grammar code state with
      | .error detail => { progress, failure := some (.tokenizer detail), requests := [request] }
      | .ok (tokens, state) =>
        cons note index request tokens
          (fromLine tokenizer grammar fence (index + 1) progress (some state) lines)

section Line

variable (tokenizer : Tokenizer γ σ) (grammar : γ) (fence : Fence) {index : Nat}
  {progress progress' : Progress}
  {state : Option σ} {line : String} (lines : List String)

/-- A line with an unknown word is not given to the tokenizer. -/
theorem fromLine_unknown {e : Error}
    (passed : progress.passLine fence index line = (progress', .error e)) :
    fromLine tokenizer grammar fence index progress state (line :: lines) =
      { progress := progress', failure := some e } := by
  simp only [fromLine, passed]

/-- A line that the tokenizer fails on ends the listing, after its directives have been obeyed. -/
theorem fromLine_failed {note : LineNote} {detail : String}
    (passed : progress.passLine fence index line = (progress', .ok note))
    (failed : tokenizer.tokenize grammar (DirectiveComment.split line).code state = .error detail) :
    fromLine tokenizer grammar fence index progress state (line :: lines) =
      { progress := progress', failure := some (.tokenizer detail),
        requests := [⟨(DirectiveComment.split line).code, state⟩] } := by
  simp only [fromLine, passed, failed]

/-- A line that passes is put in front of those that follow, which go on in the state it has left.
-/
theorem fromLine_ok {note : LineNote} {tokens : List Token} {state' : σ}
    (passed : progress.passLine fence index line = (progress', .ok note))
    (tokenized :
      tokenizer.tokenize grammar (DirectiveComment.split line).code state = .ok (tokens, state')) :
    fromLine tokenizer grammar fence index progress state (line :: lines) =
      cons note index ⟨(DirectiveComment.split line).code, state⟩ tokens
        (fromLine tokenizer grammar fence (index + 1) progress' (some state') lines) := by
  simp only [fromLine, passed, tokenized]

end Line

/-- What comes of the lines of a block. -/
def ofLines (tokenizer : Tokenizer γ σ) (grammar : γ) (fence : Fence) (lines : List String) :
    Transcript σ :=
  fromLine tokenizer grammar fence 0 (Progress.start fence.numbering) none lines

/-- The listing, if nothing has failed. -/
def listing? (a : Transcript σ) (fence : Fence) : Except Error (Listing (List String)) :=
  match a.failure with
  | some e => .error e
  | none => .ok {
      language := fence.language
      group := fence.group
      anyFocused := a.progress.anyFocused
      anyNumbered := a.progress.anyNumbered
      lines := a.lines }

end Transcript

/-! ## Styles for the fragments -/

namespace StyleCache

/-- The fragments with the styles for their scopes, and the cache after them. -/
def styleFragments (stylist : Stylist) (c : StyleCache) :
    List (Fragment (List String)) → List (Fragment StylePair) × StyleCache
  | [] => ([], c)
  | f :: fragments =>
    let (pair, c) := c.resolve stylist f.tag
    let (styled, c) := c.styleFragments stylist fragments
    (⟨f.code, pair⟩ :: styled, c)

theorem styleFragments_append (stylist : Stylist) (c : StyleCache)
    (a b : List (Fragment (List String))) :
    c.styleFragments stylist (a ++ b) =
      ((c.styleFragments stylist a).1 ++
        ((c.styleFragments stylist a).2.styleFragments stylist b).1,
        ((c.styleFragments stylist a).2.styleFragments stylist b).2) := by
  induction a generalizing c with
  | nil => rfl
  | cons f a ih => simp [styleFragments, ih]

/-- The lines with the styles for their fragments, and the cache after them. -/
def styleLines (stylist : Stylist) (c : StyleCache) :
    List (ListingLine (List String)) → List (ListingLine StylePair) × StyleCache
  | [] => ([], c)
  | l :: lines =>
    let (fragments, c) := c.styleFragments stylist l.fragments
    let (styled, c) := c.styleLines stylist lines
    (⟨l.note, fragments⟩ :: styled, c)

end StyleCache

end CodeListing
