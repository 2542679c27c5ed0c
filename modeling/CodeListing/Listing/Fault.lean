import CodeListing.Listing.Transcript

/-!
# Lines at fault

A line is at fault if a word of its directive comment is no directive, or if the tokenizer fails at
what the comment leaves of it.  Whether the tokenizer fails is asked here apart from the directives:
it goes through all the lines, also through those with unknown words.  Where a line is at fault in
both ways, the word counts.
-/

namespace CodeListing

namespace DirectiveComment

/-- The line without its directive comment. -/
def codeOf (line : String) : String := (split line).code

/-- The first word of the line's directive comment that is no directive. -/
def unknownWord? (line : String) : Option String :=
  (split line).words.find? fun word => (Directive.ofText? word).isNone

/-- The first unknown word on the line at the place. -/
def unknownAt? (lines : List String) (place : Nat) : Option String :=
  lines[place]?.bind unknownWord?

end DirectiveComment

namespace Tokenizer

variable {γ σ : Type} (tokenizer : Tokenizer γ σ) (grammar : γ)

/-- The state behind lines of code that are taken apart one after the other, each with the state of
the line before it and the first one without any. -/
def stateBehind (codes : List String) : Except String (Option σ) :=
  codes.foldlM (fun state code => do
    let (_, state) ← tokenizer.tokenize grammar code state
    return some state) none

/-- What the tokenizer says of a line of code if it fails there. -/
def failure? (code : String) (state : Option σ) : Option String :=
  match tokenizer.tokenize grammar code state with
  | .error detail => some detail
  | .ok _ => none

/-- What the tokenizer says of the line of code at the place if it fails there, having taken the
lines in front of it apart. -/
def failureAt? (codes : List String) (place : Nat) : Option String :=
  match codes[place]?, tokenizer.stateBehind grammar (codes.take place) with
  | some code, .ok state => tokenizer.failure? grammar code state
  | _, _ => none

/-- The error of the line at the place, if it is at fault. -/
def errorAt? (lines : List String) (place : Nat) : Option Error :=
  ((DirectiveComment.unknownAt? lines place).map (.directive · place)).or
    ((tokenizer.failureAt? grammar (lines.map DirectiveComment.codeOf) place).map .tokenizer)

end Tokenizer

end CodeListing
