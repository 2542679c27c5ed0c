import CodeListing.Listing.Transcript
import CodeListing.OutputBuffer
import CodeListing.Theme.Stylist

/-!
# Drafts

A highlighter writes in a `Workspace`: the text of a block, the styles of the fragment at hand and
the rows of the gutter.  It outlives the block.  `Workspace.acquire` readies it for a block and
`Workspace.reset` clears it behind the block, however the block has ended.

A `Draft` is a block while it is being written: line after line goes through its directives, the
tokenizer and the styles, and is written into the workspace at once.  An unknown directive or a
failure of the tokenizer ends the work in the middle, with lines already written, rows already in
the gutter and styles already remembered.

`CodeListing.Listing.Transcript` says what the lines come to without a workspace.
-/

namespace CodeListing

open Markup

/-- What a highlighter writes in. -/
structure Workspace where
  /-- The text of the block so far. -/
  buffer : OutputBuffer := .empty
  /-- The styles of the fragment at hand, as text. -/
  css : String := ""
  /-- The rows of the gutter so far. -/
  gutter : Array GutterRow := #[]
  /-- The destination of the buffer, as long as it is not bound. -/
  spare : String := ""
  deriving DecidableEq, Repr

namespace Workspace

/-- Takes the destination back from the buffer and clears all texts. -/
def reset (w : Workspace) : Workspace where
  buffer := w.buffer.release.2
  css := ""
  gutter := #[]
  spare := ""

/-- Clears what may be left of another block and binds the destination. -/
def acquire (w : Workspace) : Workspace :=
  let w := w.reset
  { w with buffer := (w.buffer.bind w.spare).2, spare := "" }

end Workspace

/-- A block while it is being written. -/
structure Draft (σ : Type) where
  progress : Progress
  /-- The state of the tokenizer behind the last line. -/
  state : Option σ := none
  /-- The styles worked out so far, for this block and for those before it. -/
  styles : StyleCache
  workspace : Workspace
  notices : Array Notice := #[]
  /-- What the tokenizer was asked. -/
  requests : Array (Request σ) := #[]

/-- Work on a draft.  Work that fails leaves the draft as far as it has come. -/
abbrev Drafting (σ : Type) := ExceptT Error (StateM (Draft σ))

namespace Draft

variable {γ σ : Type}

/-- The draft of a block without any line. -/
def start (numbering : LineNumbering) (styles : StyleCache) (workspace : Workspace) : Draft σ where
  progress := .start numbering
  styles
  workspace

/-- Writes markup. -/
def write (markup : List Piece) : Drafting σ Unit := do
  let d ← get
  let buffer ← d.workspace.buffer.appendMarkup markup
  set { d with workspace := { d.workspace with buffer } }

/-- Puts a row into the gutter. -/
def addRow (row : GutterRow) : Drafting σ Unit :=
  modify fun d => { d with workspace := { d.workspace with gutter := d.workspace.gutter.push row } }

/-- Sets the text of the styles at hand. -/
def setCss (css : String) : Drafting σ Unit :=
  modify fun d => { d with workspace := { d.workspace with css } }

/-- Obeys the directives of the line at the place `index`. -/
def obey (fence : Fence) (index : Nat) (line : String) : Drafting σ LineNote := do
  let d ← get
  let (progress, note) := d.progress.passLine fence index line
  set { d with progress }
  note

/-- Hands a line of code to the tokenizer, with the state that is left of the line before. -/
def tokenize (tokenizer : Tokenizer γ σ) (grammar : γ) (code : String) :
    Drafting σ (List Token) := do
  let d ← get
  set { d with state := none, requests := d.requests.push ⟨code, d.state⟩ }
  match tokenizer.tokenize grammar code d.state with
  | .error detail => throw (.tokenizer detail)
  | .ok (tokens, state) =>
    modify fun d => { d with state := some state }
    return tokens

/-- The styles for a stack of scopes. -/
def resolve (stylist : Stylist) (scopes : List String) : Drafting σ StylePair :=
  modifyGet fun d =>
    let (pair, styles) := d.styles.resolve stylist scopes
    (pair, { d with styles })

/-- Writes the fragment that a token of a line is about; a token about no fragment is passed
over. -/
def addToken (stylist : Stylist) (index : Nat) (code : String) (token : Token) :
    Drafting σ Unit := do
  match token.fragment? code with
  | none =>
    let notice := .strayToken token.start token.stop index (Text.byteLength code.toList)
    modify fun d => { d with notices := d.notices.push notice }
  | some fragment =>
    let pair ← resolve stylist fragment.tag
    setCss pair.css
    write (styledCode (← get).workspace.css fragment.code)
    setCss ""

/-- Writes the line that stands for numbers passed over. -/
def addSkipped (r : NumberRange) : Drafting σ Unit := do
  write (skippedLine r)
  addRow (.skipped r)

/-- Writes the line at the place `index`. -/
def addLine (tokenizer : Tokenizer γ σ) (stylist : Stylist) (grammar : γ) (fence : Fence)
    (index : Nat) (line : String) : Drafting σ Unit := do
  let note ← obey fence index line
  forM note.skipped addSkipped
  write [.openTag "span" [("class", .literal note.classes)]]
  let code := (DirectiveComment.split line).code
  let tokens ← tokenize tokenizer grammar code
  forM tokens (addToken stylist index code)
  write [.closeTag "span"]
  match note.number with
  | some n => addRow (.number n)
  | none => return

/-- Writes the lines from the place `index` on. -/
def addLines (tokenizer : Tokenizer γ σ) (stylist : Stylist) (grammar : γ) (fence : Fence)
    (index : Nat) : (lines : List String) → Drafting σ Unit
  | [] => return
  | line :: lines => do
    addLine tokenizer stylist grammar fence index line
    addLines tokenizer stylist grammar fence (index + 1) lines

/-- Writes the end of the code, and the gutter if numbers were asked for. -/
def close : Drafting σ Unit := do
  write [.closeTag "code"]
  let d ← get
  if d.progress.anyNumbered then
    write (gutterMarkup d.workspace.gutter.toList)
  write [.closeTag "pre"]

/-- Writes a block but for its opening tags, and answers what was written. -/
def body (tokenizer : Tokenizer γ σ) (stylist : Stylist) (grammar : γ) (fence : Fence)
    (lines : List String) :
    Drafting σ String := do
  addLines tokenizer stylist grammar fence 0 lines
  close
  (← get).workspace.buffer.flush
  (← get).workspace.buffer.contents

end Draft

end CodeListing
