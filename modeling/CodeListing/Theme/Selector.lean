import CodeListing.Text.WhiteSpace

/-!
# Scope selectors

A piece of code carries a stack of scopes, each a name in dotted parts such as
`string.quoted.double`.  A `Selector` asks for a scope at the top of the stack and, below it, for
further scopes from the top down: each either directly below the one before or anywhere below it.

Stacks are listed from the outermost scope to the innermost, as the text of a selector is.  The
further scopes of a selector are kept from the innermost outwards, the order in which they are
looked for.

`Selector.ofText?` reads a selector.  The text that one writes for it (`Selector.toText`) has its
scopes from the outermost to the target with a space between two, and with ` > ` in place of the
space if the outer one has to be the parent of the inner one.  A selector can be written like this
if its scopes are words and none of them is the sign that stands for a parent (`Selector.Readable`).
-/

namespace CodeListing

/-- Whether `scope` is `pattern` or goes on from it with a dot. -/
def scopeCovers (pattern scope : String) : Bool :=
  pattern.toList.isPrefixOf scope.toList &&
  match scope.toList.drop pattern.toList.length with
  | [] => true
  | c :: _ => c == '.'

/-- What a selector asks for below a scope that it has found. -/
inductive Ancestor
  /-- A scope at any place further out. -/
  | anywhere (scope : String)
  /-- A scope at the very next place. -/
  | parent (scope : String)
  deriving DecidableEq, Repr

/-- A condition on stacks of scopes. -/
structure Selector where
  /-- What the innermost scope has to be. -/
  target : String
  /-- What is asked for further out, from the innermost outwards. -/
  ancestors : List Ancestor
  deriving DecidableEq, Repr

namespace Selector

/-- Whether the scopes, given from the innermost outwards, meet the requirements one after the
other.  A scope that may stand anywhere is taken at the first place where it stands. -/
def ancestorsIn : List Ancestor → (inward : List String) → Bool
  | [], _ => true
  | .parent _ :: _, [] => false
  | .parent pattern :: others, scope :: outer =>
    scopeCovers pattern scope && ancestorsIn others outer
  | .anywhere pattern :: others, outer =>
    match outer.dropWhile (!scopeCovers pattern ·) with
    | [] => false
    | _ :: outer => ancestorsIn others outer

/-- Whether the stack meets the selector. -/
def selects (s : Selector) (scopes : List String) : Bool :=
  match scopes.reverse with
  | [] => false
  | scope :: outer => scopeCovers s.target scope && ancestorsIn s.ancestors outer

/-- The number of dotted parts of the target: the first measure of how specific a selector is. -/
def parts (s : Selector) : Nat := (s.target.toList.splitOn '.').length

/-- The requirements that words make, from the last word to the first.  A word `>` asks that the
scope written in front of it be the next one; `direct` says that such a word has just been
passed. -/
def ancestorsOfWords (direct : Bool) : List String → List Ancestor
  | [] => []
  | word :: before =>
    if word = ">" then ancestorsOfWords true before
    else (if direct then .parent word else .anywhere word) :: ancestorsOfWords false before

/-- The selector that a text writes: scopes from the outermost to the target, separated by white
space, with a word `>` between two that have to be neighbours.  There is none without a target. -/
def ofText? (text : String) : Option Selector :=
  match ((Text.words text.toList).map String.ofList).reverse with
  | [] => none
  | target :: before => if target = ">" then none else some ⟨target, ancestorsOfWords false before⟩

end Selector

/-! ## Selectors in normal form -/

/-- The scope that is asked for. -/
def Ancestor.pattern : Ancestor → String
  | .anywhere scope => scope
  | .parent scope => scope

/-- The scope can be told from what stands around it in the text of a selector. -/
structure IsScope (scope : String) : Prop where
  isWord : Text.IsWord scope.toList
  noSign : scope ≠ ">"

instance (scope : String) : Decidable (IsScope scope) :=
  decidable_of_iff (Text.IsWord scope.toList ∧ scope ≠ ">")
    ⟨fun both => ⟨both.1, both.2⟩, fun isScope => ⟨isScope.isWord, isScope.noSign⟩⟩

/-- The scope that is asked for, with what joins it to the scope behind it. -/
def Ancestor.toText : Ancestor → String
  | .anywhere scope => scope ++ " "
  | .parent scope => scope ++ " > "

namespace Selector

/-- The selector as a text that can be read. -/
def toText (s : Selector) : String :=
  String.join (s.ancestors.reverse.map Ancestor.toText) ++ s.target

/-- The scopes that are asked for, from the outermost to the target. -/
def scopes (s : Selector) : List String := s.ancestors.reverse.map Ancestor.pattern ++ [s.target]

/-- Every scope of the selector can be told from what stands around it. -/
def Readable (s : Selector) : Prop := ∀ scope ∈ s.scopes, IsScope scope

instance (s : Selector) : Decidable s.Readable :=
  inferInstanceAs (Decidable (∀ scope ∈ s.scopes, IsScope scope))

end Selector

end CodeListing
