import CodeListing.Text.Letters
import CodeListing.Text.Utf8

/-!
# Tokenizers

What takes a line of code apart stands outside of the library.  A `Tokenizer` is any function that
does: line by line, from the state that it left behind at the line before.

It may answer with any spans whatever.  `Token.Cuts` says that the span of a token cuts something
out of its line, be it the empty text, and `Token.Spans` what; other tokens are strays.
`Tokenizer.withoutStrays` gives the same answers, but for the strays on the line that was asked
about.
-/

namespace CodeListing

/-- A stretch of a line, in bytes of its UTF-8 form, with its scopes from the outermost to the
innermost. -/
structure Token where
  start : Nat
  stop : Nat
  scopes : List String
  deriving DecidableEq, Repr

/-- The tokens tile a line from the byte `start` on: each begins where the one before has ended, all
of them begin and end between characters, and the last one ends with the line. -/
inductive Token.Tile (line : List Char) : (start : Nat) → List Token → Prop
  | done : Tile line (Text.byteLength line) []
  | token {t : Token} {tokens : List Token} :
      t.start ≤ t.stop → Text.IsBoundary line t.start → Text.IsBoundary line t.stop →
      Tile line t.stop tokens → Tile line t.start (t :: tokens)

/-- Takes lines of code apart, by a grammar `γ` for their language and with a state `σ` between
lines. -/
structure Tokenizer (γ σ : Type) where
  /-- The grammar for a language, if there is one. -/
  grammar? : (language : String) → Option γ
  /-- The tokens of a line and the state after it, or what went wrong.  The first line of a block
  has no state in front of it. -/
  tokenize : γ → (line : String) → Option σ → Except String (List Token × σ)

namespace Tokenizer

/-- The scope of code that is not taken apart. -/
def plainScope : String := "text.plain"

/-- The tokens of a line that is not taken apart: one, or none if the line is empty. -/
def plainTokens (line : String) : List Token :=
  if line.isEmpty then [] else [⟨0, Text.byteLength line.toList, [plainScope]⟩]

/-- Takes nothing apart.  It has a grammar for the given languages, whose case is ignored, or for
all. -/
def plain (languages : Option (List String)) : Tokenizer Unit Unit where
  grammar? language :=
    match languages with
    | none => some ()
    | some languages =>
      if languages.any fun l => Text.equalsIgnoringCase l.toList language.toList then some ()
        else none
  tokenize _ line _ := .ok (plainTokens line, ())

end Tokenizer

/-! ## Stray tokens -/

namespace Token

/-- The text is what stands in the line between the two ends of the span, counted in bytes. -/
def Spans (line : List Char) (t : Token) (text : List Char) : Prop :=
  ∃ before behind, line = before ++ (text ++ behind) ∧ t.start = Text.byteLength before ∧
    t.stop = Text.byteLength (before ++ text)

/-- The span does not end in front of its start, and at neither end it goes beyond the line or
through a character. -/
structure Cuts (line : List Char) (t : Token) : Prop where
  ordered : t.start ≤ t.stop
  start : Text.IsBoundary line t.start
  stop : Text.IsBoundary line t.stop

instance (line : List Char) (t : Token) : Decidable (t.Cuts line) :=
  decidable_of_iff (t.start ≤ t.stop ∧ Text.IsBoundary line t.start ∧ Text.IsBoundary line t.stop)
    ⟨fun ⟨ordered, start, stop⟩ => ⟨ordered, start, stop⟩,
      fun ⟨ordered, start, stop⟩ => ⟨ordered, start, stop⟩⟩

end Token

/-- The tokenizer that answers the same, without the tokens that cut nothing out of the line. -/
def Tokenizer.withoutStrays {γ σ : Type} (tokenizer : Tokenizer γ σ) : Tokenizer γ σ where
  grammar? := tokenizer.grammar?
  tokenize grammar line state :=
    (tokenizer.tokenize grammar line state).map fun (tokens, state) =>
      (tokens.filter fun t => t.Cuts line.toList, state)

end CodeListing
