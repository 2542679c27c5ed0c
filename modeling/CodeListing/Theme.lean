import CodeListing.Error
import CodeListing.Style
import CodeListing.Theme.Selector
import CodeListing.Theme.Source

/-!
# Themes

A `Theme` is a list of rules, each a selector with a style.  For a stack of scopes, `Theme.matching`
lists the styles of all rules that match the stack or an outer part of it, the strongest first;
`Theme.style` takes each attribute from the first of them that sets it.

A rule is stronger if it matches a longer part of the stack, then if its target has more parts, then
if it asks for more ancestors, then if it stands later in the theme.
-/

namespace CodeListing

/-- A selector with the style of the code that it matches. -/
structure Rule where
  selector : Selector
  style : Style
  deriving DecidableEq, Repr

/-- A theme that styles can be taken from. -/
structure Theme where
  name : String
  kind : ThemeKind
  /-- The rules in the order of the theme. -/
  rules : List Rule
  deriving DecidableEq, Repr

/-- The style that settings stand for.  The foreground is looked at before the background. -/
def Style.ofSettings (s : SourceSettings) : Except Error Style := do
  let foreground ← s.foregroundText.mapM Color.named
  let background ← s.backgroundText.mapM Color.named
  return { foreground, background, font := s.fontStyle.map FontStyle.ofText }

/-- The rules that a rule of a theme file stands for, one for each selector.  A rule without scope
speaks of the page as a whole; it stands for none and its settings are not looked at. -/
def Rule.ofSource (r : SourceRule) : Except Error (List Rule) :=
  if r.scope.isEmpty then
    .ok []
  else do
    let style ← Style.ofSettings r.settings
    return (r.selectorTexts.filterMap Selector.ofText?).map (⟨·, style⟩)

namespace Theme

/-- The theme that a theme file describes. -/
def ofSource (t : ThemeSource) : Except Error Theme := do
  let rules ← t.rules.mapM Rule.ofSource
  return {
    name := t.name
    kind := (t.kind.map ThemeKind.ofText).getD .default
    rules := rules.flatten }

/-- The theme in a JSON text. -/
def ofJson (content : String) : Except Error Theme :=
  match ThemeSource.ofText content with
  | .ok source => ofSource source
  | .error fault => .error (.json fault)

/-- A rule that matches the first `depth` scopes of a stack, with its place in the theme. -/
structure Match where
  depth : Nat
  place : Nat
  rule : Rule
  deriving DecidableEq, Repr

/-- Whether `a` is at least as strong as `b`. -/
def Match.outranks (a b : Match) : Bool :=
  if a.depth ≠ b.depth then b.depth < a.depth
  else if a.rule.selector.parts ≠ b.rule.selector.parts then
    b.rule.selector.parts < a.rule.selector.parts
  else if a.rule.selector.ancestors.length ≠ b.rule.selector.ancestors.length then
    b.rule.selector.ancestors.length < a.rule.selector.ancestors.length
  else
    b.place ≤ a.place

/-- The rules that match the first `depth` of the scopes. -/
def matchesAt (t : Theme) (scopes : List String) (depth : Nat) : List Match :=
  t.rules.zipIdx.filterMap fun (rule, place) =>
    if rule.selector.selects (scopes.take depth) then some ⟨depth, place, rule⟩ else none

/-- The matches of rules with outer parts of the stack and with the whole of it, the strongest
first. -/
def ranking (t : Theme) (scopes : List String) : List Match :=
  ((List.range' 1 scopes.length).flatMap (t.matchesAt scopes)).mergeSort Match.outranks

/-- The styles of the rules that match the stack or an outer part of it, the strongest first. -/
def matching (t : Theme) (scopes : List String) : List Style :=
  (t.ranking scopes).map (·.rule.style)

/-- The style that the theme gives to code with these scopes. -/
def style (t : Theme) (scopes : List String) : Style := Style.cascade (t.matching scopes)

end Theme

end CodeListing
