import CodeListing.Proofs.Inheritance
import CodeListing.Theme.Ranking
import CodeListing.Theme.Stylist

/-!
# Each attribute from the first rule that sets it

`Style.cascade_firstOfEach` says what style is collected from a list of rules.  It is collected for
all attributes at once, and only until none is missing.  A style that lacks nothing does not change
any more (`orElse_of_isComplete`), so that the rules behind that point would have made no difference
(`fillFrom_eq_foldl`).
-/

namespace CodeListing.Style

/-! ## Stopping early -/

/-- Where every attribute is set, no further rule is asked. -/
theorem orElse_of_isComplete {s : Style} (complete : s.isComplete) (t : Style) :
    s.orElse t = s := by
  refine eq_of_value? fun attr => ?_
  obtain ⟨value, set⟩ := Option.isSome_iff_exists.1 (isSome_value?_of_isComplete complete attr)
  rw [value?_orElse, set]
  rfl

theorem foldl_orElse_of_isComplete {s : Style} (complete : s.isComplete) (rules : List Style) :
    rules.foldl orElse s = s := by
  induction rules with
  | nil => rfl
  | cons rule rules ih => rw [List.foldl_cons, orElse_of_isComplete complete, ih]

/-- Stopping as soon as nothing is missing leaves the same style as going on. -/
theorem fillFrom_eq_foldl (s : Style) (rules : List Style) :
    s.fillFrom rules = rules.foldl orElse s := by
  induction rules generalizing s with
  | nil => rfl
  | cons rule rules ih =>
    rw [fillFrom, List.foldl_cons]
    split
    · next complete => exact (foldl_orElse_of_isComplete complete rules).symm
    · exact ih _

/-! ## The first value -/

/-- Each attribute of a cascade is that of the first rule that sets it. -/
theorem firstOfEach_cascade (rules : List Style) : FirstOfEach rules (cascade rules) := by
  constructor
  · intro attr value
    rw [value?_cascade, List.findSome?_eq_some_iff]
    exact Iff.rfl
  · intro attr
    rw [value?_cascade, List.findSome?_eq_none_iff]

/-- What is set already stays, whatever the rules behind. -/
theorem value?_cascade_append {rules : List Style} {attr : Attribute} {value : attr.Value}
    (set : (cascade rules).value? attr = some value) (more : List Style) :
    (cascade (rules ++ more)).value? attr = some value := by
  rw [value?_cascade] at set ⊢
  rw [List.findSome?_append, set, Option.some_or]

/-- An attribute depends on nothing but what the rules set that attribute to. -/
theorem value?_cascade_congr {rules rules' : List Style} {attr : Attribute}
    (same : rules.map (·.value? attr) = rules'.map (·.value? attr)) :
    (cascade rules).value? attr = (cascade rules').value? attr := by
  have column (rules : List Style) :
      (cascade rules).value? attr = (rules.map (·.value? attr)).findSome? id := by
    rw [value?_cascade, List.findSome?_map]
    rfl
  rw [column, column, same]

/-- **Each attribute is the first that is set.**  Whatever rules are listed for a stack, its style
has each attribute from the first of them that sets it, whatever they set besides, and lacks the
attributes that none of them sets.  Looking at all rules would give the same style, and further
rules behind them change nothing that is set. -/
theorem cascade_firstOfEach (rules : List Style) :
    FirstOfEach rules (cascade rules) ∧
      (∀ attr rules', rules.map (·.value? attr) = rules'.map (·.value? attr) →
        (cascade rules).value? attr = (cascade rules').value? attr) ∧
      cascade rules = cascadeAll rules ∧
      (∀ more attr value, (cascade rules).value? attr = some value →
        (cascade (rules ++ more)).value? attr = some value) ∧
      ∀ (stylist : Stylist) (scopes : List String),
        FirstOfEach (stylist.light scopes) (stylist.style scopes).light ∧
          FirstOfEach (stylist.dark scopes) (stylist.style scopes).dark := by
  refine ⟨firstOfEach_cascade rules, ?_, fillFrom_eq_foldl {} rules, ?_, ?_⟩
  · exact fun attr rules' same => value?_cascade_congr same
  · exact fun more attr value set => value?_cascade_append set more
  · intro stylist scopes
    exact ⟨firstOfEach_cascade (stylist.light scopes), firstOfEach_cascade (stylist.dark scopes)⟩

/-- The font style without flags is the first that is set; it hides the ones behind it. -/
theorem cascade_firstOfEach_noFlags :
    let rules : List Style := [
      { font := some .empty }, { foreground := some .white, font := some .bold },
      { foreground := some .black, background := some .black }]
    let others : List Style := [
      { font := some .empty, background := some .white }, { font := some .bold }, {}]
    let more : List Style := [{ font := some .italic }]
    rules.map (·.value? .font) = others.map (·.value? .font) ∧
      (cascade rules).value? .font = (cascade others).value? .font ∧
      (cascade rules).value? .font = some FontStyle.empty ∧
      (cascade (rules ++ more)).value? .font = some FontStyle.empty := by
  intro rules others more
  have same : rules.map (·.value? .font) = others.map (·.value? .font) := rfl
  have set : (cascade rules).value? .font = some FontStyle.empty := rfl
  obtain ⟨-, independent, -, kept, -⟩ := cascade_firstOfEach rules
  exact ⟨same, independent .font others same, set, kept more .font FontStyle.empty set⟩

end CodeListing.Style
