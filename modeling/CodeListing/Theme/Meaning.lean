import Mathlib.Data.List.Forall2
import CodeListing.Theme.Selector

/-!
# What selectors mean

A stack meets a selector if its innermost scope is one that the target asks for and if, going
outwards from there, each of the ancestors can be given a place where it stands.  A parent stands
directly below the scope found before it.  For an ancestor that may stand anywhere there are two
readings: by `Selector.Means` any place further out will do, by `Selector.MeansNearest` only the
nearest one where it stands.

There are two ways to ask for less than a selector does: parents may stand anywhere
(`Selector.Relaxes`), and the ancestor that is looked for last is not looked for
(`Selector.dropOutermost`).

A scope is a name in parts with a dot between two (`scopeParts`).  A name without a dot is its only
part, and where the name is empty, begins or ends with a dot, or has two dots in a row, there is an
empty part.
-/

namespace CodeListing

/-! ## The parts of a scope -/

/-- What stands between the dots of a scope, from the most general part to the most special. -/
def scopeParts (scope : String) : List (List Char) := scope.toList.splitOn '.'

/-- How specific a selector is hangs on the parts of its target. -/
theorem Selector.parts_eq (s : Selector) : s.parts = (scopeParts s.target).length := rfl

/-! ## Places on a stack -/

/-- `scope` is `pattern` or goes on from it with a dot. -/
def Covers (pattern scope : String) : Prop :=
  scope = pattern ∨ ∃ rest, scope = pattern ++ "." ++ rest

/-- The stack has a scope at the place, and it is one that the pattern asks for. -/
def StandsAt (scopes : List String) (place : Nat) (pattern : String) : Prop :=
  ∃ scope, scopes[place]? = some scope ∧ Covers pattern scope

/-- The pattern stands at no place strictly between the two. -/
def NoneBetween (scopes : List String) (pattern : String) (place above : Nat) : Prop :=
  ∀ between, place < between → between < above → ¬ StandsAt scopes between pattern

namespace Ancestor

/-- Whether the ancestor may stand at the place if the scope found before it stands at `above`. -/
def Reaches : Ancestor → (above place : Nat) → Prop
  | .anywhere _, above, place => place < above
  | .parent _, above, place => place + 1 = above

/-- As `Reaches`, but no place in between is passed over where the ancestor stands. -/
def ReachesNearest (scopes : List String) (ancestor : Ancestor) (above place : Nat) : Prop :=
  ancestor.Reaches above place ∧ NoneBetween scopes ancestor.pattern place above

end Ancestor

namespace Selector

/-- Places of the stack for the ancestors, each reached from the one before it. -/
inductive Placed (reaches : Ancestor → Nat → Nat → Prop) (scopes : List String) :
    (above : Nat) → List Ancestor → (places : List Nat) → Prop
  | nil {above : Nat} : Placed reaches scopes above [] []
  | cons {above place : Nat} {ancestor : Ancestor} {others : List Ancestor} {places : List Nat} :
      reaches ancestor above place → StandsAt scopes place ancestor.pattern →
      Placed reaches scopes place others places →
      Placed reaches scopes above (ancestor :: others) (place :: places)

/-- The target stands innermost, and there are places for the ancestors. -/
def Meets (reaches : Ancestor → Nat → Nat → Prop) (s : Selector) (scopes : List String) : Prop :=
  ∃ last places, scopes.length = last + 1 ∧ StandsAt scopes last s.target ∧
    Placed reaches scopes last s.ancestors places

/-- What the selector says, with free choice among the places of an ancestor. -/
def Means (s : Selector) (scopes : List String) : Prop := s.Meets Ancestor.Reaches scopes

/-- What the selector says if no ancestor may be passed over where it stands. -/
def MeansNearest (s : Selector) (scopes : List String) : Prop :=
  s.Meets (Ancestor.ReachesNearest scopes) scopes

/-- Parents are asked for only up to the first ancestor that may stand anywhere. -/
def ParentsFirst (s : Selector) : Prop :=
  ∃ parents others : List String, s.ancestors = parents.map .parent ++ others.map .anywhere

end Selector

/-! ## Selectors that ask for less -/

/-- The second asks for the scope that the first asks for, and for a place next to the scope found
before only if the first does. -/
inductive Ancestor.Relaxes : Ancestor → Ancestor → Prop
  | same (ancestor : Ancestor) : Relaxes ancestor ancestor
  | freed (scope : String) : Relaxes (.parent scope) (.anywhere scope)

namespace Selector

/-- The second is the first, but for any number of parents that may stand anywhere. -/
structure Relaxes (s s' : Selector) : Prop where
  target : s'.target = s.target
  ancestors : List.Forall₂ Ancestor.Relaxes s.ancestors s'.ancestors

/-- The selector without what it asks for furthest out. -/
def dropOutermost (s : Selector) : Selector := ⟨s.target, s.ancestors.dropLast⟩

end Selector

end CodeListing
