import CodeListing.Text.WhiteSpace
import CodeListing.Theme

/-!
# What the rules of a theme file stand for

`SourceRule.StandFor` says which rules a theme gets, `SourceRule.FirstFault` with which error there
is no theme.  Only a color can be at fault, and only in a rule that has scopes.  Such a rule stands
for one rule for each piece of its scopes between commas that is a selector; the selectors do not
count when its colors are looked at.  How the pieces are spread over scopes, and over rules with the
same settings, makes no difference: `SourceRule.Respelled` says which rules may be written in the
place of one.
-/

namespace CodeListing

/-- A color setting sets the color of the text, which is what is written there without white space
around it. -/
def SetsColor (value : Option String) (text : String) : Prop :=
  ∃ written, value = some written ∧ Text.Trimmed written.toList text.toList ∧
    text ≠ "" ∧ text ≠ "inherit"

/-- The color that a color setting gives, if it gives any. -/
inductive GivesColor (value : Option String) : Option Color → Prop
  | unset (unset : ∀ text, ¬ SetsColor value text) : GivesColor value none
  | set {text : String} {c : Color} (sets : SetsColor value text)
      (named : Color.named text = .ok c) : GivesColor value (some c)

namespace SourceSettings

/-- The settings set what the style says. -/
structure Means (s : SourceSettings) (style : Style) : Prop where
  foreground : GivesColor s.foreground style.foreground
  background : GivesColor s.background style.background
  font : style.font = s.fontStyle.map FontStyle.ofText

/-- The settings have a color that is none, and this is its error.  If they have two, it is that of
the foreground. -/
inductive Fault (s : SourceSettings) (e : Error) : Prop
  | foreground {text : String} (sets : SetsColor s.foreground text)
      (rejected : Color.named text = .error e) : Fault s e
  | background {text : String}
      (sound : ∀ text e, SetsColor s.foreground text → Color.named text ≠ .error e)
      (sets : SetsColor s.background text) (rejected : Color.named text = .error e) : Fault s e

end SourceSettings

namespace SourceRule

/-- The pieces of the rule's scopes between commas. -/
def pieces (r : SourceRule) : List (List Char) := r.scope.flatMap (·.toList.splitOn ',')

/-- The selectors among the pieces. -/
def selectors (r : SourceRule) : List Selector :=
  r.pieces.filterMap fun piece => Selector.ofText? (String.ofList piece)

/-- The rules of a theme file stand for the rules of a theme. -/
inductive StandFor : List SourceRule → List Rule → Prop
  | nil : StandFor [] []
  | page {r : SourceRule} {others : List SourceRule} {rules : List Rule} (unscoped : r.scope = [])
      (rest : StandFor others rules) : StandFor (r :: others) rules
  | rule {r : SourceRule} {others : List SourceRule} {style : Style} {rules : List Rule}
      (hasScopes : r.scope ≠ []) (means : r.settings.Means style) (rest : StandFor others rules) :
      StandFor (r :: others) (r.selectors.map (⟨·, style⟩) ++ rules)

/-- The rule has scopes and is at fault. -/
def Fault (r : SourceRule) (e : Error) : Prop := r.scope ≠ [] ∧ r.settings.Fault e

/-- The error of the first rule at fault. -/
def FirstFault (rules : List SourceRule) (e : Error) : Prop :=
  ∃ before r behind, rules = before ++ r :: behind ∧ (∀ earlier ∈ before, ∀ e', ¬ earlier.Fault e') ∧
    r.Fault e

/-! ## Other ways to write a rule -/

/-- The rules have the settings of `r` and together, save for white space, its pieces. -/
structure Respelled (r : SourceRule) (rules : List SourceRule) : Prop where
  haveScopes : ∀ part ∈ rules, part.scope ≠ []
  settings : ∀ part ∈ rules, part.settings = r.settings
  pieces : (rules.flatMap SourceRule.pieces).map Text.trim = r.pieces.map Text.trim

/-- One rule for each piece. -/
def perPiece (r : SourceRule) : List SourceRule :=
  r.pieces.map fun piece => { r with scope := [String.ofList piece] }

/-- The rule with a list of scopes, one for each piece. -/
def inList (r : SourceRule) : SourceRule := { r with scope := r.pieces.map String.ofList }

/-- The rule with one scope that holds all pieces. -/
def inText (r : SourceRule) : SourceRule :=
  { r with scope := [String.ofList ([','].intercalate r.pieces)] }

end SourceRule

end CodeListing
