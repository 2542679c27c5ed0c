import Mathlib.Data.Prod.Lex
import CodeListing.Theme
import CodeListing.Theme.Meaning

/-!
# The rules that match, and what is taken from them

`Theme.Ranked` is what it means for a list to rank the rules of a theme that match a stack of scopes
or an outer part of it: it has all of them, each once, and each is followed by weaker ones only.
There is only one such list.

A style has each of its attributes from the first rule of such a list that sets that one.
`Style.FirstOfEach` says so without any order in which the attributes are found, and
`Style.cascadeAll` collects them without ever stopping early.

A stack has each attribute from the strongest of the rules that match the whole of it and set the
attribute.  Where there is no such rule, it has what the stack without its innermost scope has.
`Theme.Takes` says this of one attribute, whatever becomes of the others.
-/

namespace CodeListing

/-! ## The ranking -/

namespace Theme

/-- What decides between two rules that match the same stack: the parts of the target, then the
ancestors, then the place, the first number that differs before the others. -/
def strength (place : Nat) (rule : Rule) : ℕ ×ₗ ℕ ×ₗ ℕ :=
  toLex ((scopeParts rule.selector.target).length, toLex (rule.selector.ancestors.length, place))

/-- What decides between two matches: the part of the stack, then the strength of the rules. -/
def Match.rank (m : Match) : ℕ ×ₗ ℕ ×ₗ ℕ ×ₗ ℕ :=
  toLex (m.depth, strength m.place m.rule)

/-- The rule stands at its place in the theme, and it matches the outer part of the stack. -/
structure IsMatch (t : Theme) (scopes : List String) (m : Match) : Prop where
  positive : 1 ≤ m.depth
  within : m.depth ≤ scopes.length
  placed : t.rules[m.place]? = some m.rule
  selected : m.rule.selector.selects (scopes.take m.depth) = true

/-- The list holds the matches and nothing else, none twice, the strongest first. -/
structure Ranked (t : Theme) (scopes : List String) (ranked : List Match) : Prop where
  mem_iff : ∀ m, m ∈ ranked ↔ t.IsMatch scopes m
  once : (ranked.map fun m => (m.depth, m.place)).Nodup
  descending : ranked.Pairwise fun a b => b.rank < a.rank

end Theme

/-! ## One attribute at a time -/

/-- What a style can set. -/
inductive Attribute
  | foreground
  | background
  | font
  deriving DecidableEq, Repr

/-- What an attribute can be set to. -/
def Attribute.Value : Attribute → Type
  | .foreground => Color
  | .background => Color
  | .font => FontStyle

/-- What the style sets the attribute to, if it sets it. -/
def Style.value? (s : Style) : (attr : Attribute) → Option attr.Value
  | .foreground => s.foreground
  | .background => s.background
  | .font => s.font

namespace Style

/-- Of the rules that set the attribute, the first one sets it to the value. -/
def FirstSets (attr : Attribute) (rules : List Style) (value : attr.Value) : Prop :=
  ∃ before rule behind, rules = before ++ rule :: behind ∧ rule.value? attr = some value ∧
    ∀ earlier ∈ before, earlier.value? attr = none

/-- The style has each attribute from the first of the rules that sets it, and lacks those that none
sets. -/
structure FirstOfEach (rules : List Style) (s : Style) : Prop where
  set_iff : ∀ attr value, s.value? attr = some value ↔ FirstSets attr rules value
  unset_iff : ∀ attr, s.value? attr = none ↔ ∀ rule ∈ rules, rule.value? attr = none

/-- The rules looked at up to the last one, whether anything is missing or not. -/
def cascadeAll (rules : List Style) : Style := rules.foldl orElse {}

end Style

/-! ## Styles along a stack -/

namespace Theme

variable (t : Theme) (scopes : List String) (attr : Attribute)

/-- The rule stands at its place in the theme, matches the whole stack and sets the attribute. -/
structure Sets (place : Nat) (rule : Rule) (value : attr.Value) : Prop where
  placed : t.rules[place]? = some rule
  selected : rule.selector.selects scopes = true
  sets : rule.style.value? attr = some value

/-- Of the rules that match the whole stack and set the attribute, the rule is the strongest. -/
structure Wins (place : Nat) (rule : Rule) (value : attr.Value) : Prop where
  sets : t.Sets scopes attr place rule value
  strongest : ∀ place' rule' value', t.Sets scopes attr place' rule' value' →
    strength place' rule' ≤ strength place rule

/-- What the attribute is set to for the stack, if it is `outer` without the innermost scope. -/
inductive Takes (outer : Option attr.Value) : Option attr.Value → Prop
  | own {place : Nat} {rule : Rule} {value : attr.Value} :
      t.Wins scopes attr place rule value → Takes outer (some value)
  | inherited : (∀ place rule value, ¬ t.Sets scopes attr place rule value) →
      Takes outer outer

end Theme

end CodeListing
