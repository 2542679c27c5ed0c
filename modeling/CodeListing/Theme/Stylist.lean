import Std.Data.HashMap
import CodeListing.Theme

/-!
# Styles for both themes, remembered

A `Stylist` answers a stack of scopes with the styles that apply to it, once for the light page and
once for the dark page.  A `StyleCache` keeps the pairs of styles already found, so that a stack is
worked out once.
-/

namespace CodeListing

/-- The light and the dark theme, as functions from stacks of scopes to the styles that apply, the
strongest first. -/
structure Stylist where
  light : List String → List Style
  dark : List String → List Style

namespace Stylist

/-- The stylist of two themes. -/
def ofThemes (light dark : Theme) : Stylist := ⟨light.matching, dark.matching⟩

/-- The pair of styles for a stack. -/
def style (s : Stylist) (scopes : List String) : StylePair :=
  ⟨Style.cascade (s.light scopes), Style.cascade (s.dark scopes)⟩

end Stylist

/-- Pairs of styles by the stack that they were found for. -/
structure StyleCache where
  entries : Std.HashMap (List String) StylePair

namespace StyleCache

/-- The cache that nothing has been asked of. -/
def empty : StyleCache := ⟨∅⟩

/-- The number of stacks remembered. -/
def size (c : StyleCache) : Nat := c.entries.size

/-- Whether no stack is remembered. -/
def isEmpty (c : StyleCache) : Bool := c.entries.isEmpty

/-- The pair of styles for a stack, remembered or worked out, and the cache that remembers it. -/
def resolve (c : StyleCache) (stylist : Stylist) (scopes : List String) : StylePair × StyleCache :=
  match c.entries[scopes]? with
  | some pair => (pair, c)
  | none =>
    let pair := stylist.style scopes
    (pair, ⟨c.entries.insert scopes pair⟩)

end StyleCache

end CodeListing
