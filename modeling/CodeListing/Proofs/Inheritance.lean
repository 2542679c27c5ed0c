import CodeListing.Proofs.Ranking
import CodeListing.Theme.Ranking

/-!
# Styles are inherited along the stack

One scope more on a stack puts the rules that match the whole of it in front of the ranking and
leaves the rest as it was (`ranking_concat`).  As each attribute is the first one that is found in
the ranking (`value?_style`), it is that of the strongest of these rules, or else the one that it
was (`style_concat`).
-/

namespace CodeListing

/-! ## One attribute of a cascade -/

namespace Style

theorem value?_empty (attr : Attribute) : ({} : Style).value? attr = none := by
  cases attr <;> rfl

theorem value?_orElse (s t : Style) (attr : Attribute) :
    (s.orElse t).value? attr = (s.value? attr).or (t.value? attr) := by
  cases attr <;> rfl

theorem isSome_value?_of_isComplete {s : Style} (complete : s.isComplete) (attr : Attribute) :
    (s.value? attr).isSome := by
  simp only [isComplete, Bool.and_eq_true] at complete
  obtain ⟨⟨foreground, background⟩, font⟩ := complete
  cases attr with
  | foreground => exact foreground
  | background => exact background
  | font => exact font

/-- A style is its attributes. -/
theorem eq_of_value? {s t : Style} (same : ∀ attr, s.value? attr = t.value? attr) :
    s = t := by
  obtain ⟨foreground, background, font⟩ := s
  have first : foreground = t.foreground := same .foreground
  have second : background = t.background := same .background
  have third : font = t.font := same .font
  rw [first, second, third]

/-- Rules that are not looked at any more would not have changed anything. -/
theorem value?_fillFrom (s : Style) (rules : List Style) (attr : Attribute) :
    (s.fillFrom rules).value? attr =
      (s.value? attr).or (rules.findSome? (·.value? attr)) := by
  induction rules generalizing s with
  | nil => rw [fillFrom, List.findSome?_nil, Option.or_none]
  | cons rule rules ih =>
    have filled := value?_orElse s rule attr
    rw [fillFrom, List.findSome?_cons]
    split
    · next complete =>
      obtain ⟨value, set⟩ := Option.isSome_iff_exists.1
        (isSome_value?_of_isComplete complete attr)
      rw [filled] at set ⊢
      cases own : s.value? attr with
      | some value => rfl
      | none =>
        rw [own, Option.none_or] at set
        rw [set]
    · rw [ih, filled, Option.or_assoc]
      cases rule.value? attr <;> rfl

/-- In a cascade an attribute is that of the first rule that sets it. -/
theorem value?_cascade (rules : List Style) (attr : Attribute) :
    (cascade rules).value? attr = rules.findSome? (·.value? attr) := by
  rw [cascade, value?_fillFrom, value?_empty, Option.none_or]

end Style

namespace Theme

variable {t : Theme} {scopes : List String} {scope : String} {attr : Attribute}

/-- A theme sets an attribute by the first match that sets it, the strongest one. -/
theorem value?_style (t : Theme) (scopes : List String) (attr : Attribute) :
    (t.style scopes).value? attr =
      (t.ranking scopes).findSome? (·.rule.style.value? attr) := by
  rw [style, Style.value?_cascade, matching, List.findSome?_map]
  rfl

/-! ## One scope more -/

/-- With one scope more a rule matches an outer part of the stack as before, or the whole. -/
theorem isMatch_concat {m : Match} :
    t.IsMatch (scopes ++ [scope]) m ↔
      t.IsMatch scopes m ∨ m.depth = scopes.length + 1 ∧ t.rules[m.place]? = some m.rule ∧
        m.rule.selector.selects (scopes ++ [scope]) = true := by
  have whole : (scopes ++ [scope]).take (scopes.length + 1) = scopes ++ [scope] :=
    List.take_of_length_le (by rw [List.length_append, List.length_singleton])
  constructor
  · rintro ⟨positive, within, placed, selected⟩
    rw [List.length_append, List.length_singleton] at within
    rcases Nat.lt_or_eq_of_le within with outer | depth
    · have outer := Nat.le_of_lt_succ outer
      rw [List.take_append_of_le_length outer] at selected
      exact .inl ⟨positive, outer, placed, selected⟩
    · rw [depth, whole] at selected
      exact .inr ⟨depth, placed, selected⟩
  · rintro (⟨positive, within, placed, selected⟩ | ⟨depth, placed, selected⟩)
    · refine ⟨positive, ?_, placed, ?_⟩
      · rw [List.length_append]
        exact Nat.le_add_right_of_le within
      · rwa [List.take_append_of_le_length within]
    · refine ⟨?_, ?_, placed, ?_⟩
      · rw [depth]
        exact Nat.succ_pos _
      · rw [depth, List.length_append, List.length_singleton]
      · rwa [depth, whole]

/-- Matches that go down in rank are not of the same rule for the same part of the stack. -/
theorem Ranked.of_descending {ranked : List Match}
    (mem_iff : ∀ m, m ∈ ranked ↔ t.IsMatch scopes m)
    (descending : ranked.Pairwise fun a b => b.rank < a.rank) : t.Ranked scopes ranked := by
  refine ⟨mem_iff, List.pairwise_map.2 (descending.imp_of_mem ?_), descending⟩
  intro a b first second less same
  obtain ⟨depth, place⟩ := Prod.mk.inj same
  have placed := ((mem_iff a).1 first).placed
  rw [place, ((mem_iff b).1 second).placed] at placed
  have equal : a.rank = b.rank := by
    rw [Match.rank, Match.rank, depth, place, Option.some.inj placed]
  exact absurd less (equal ▸ lt_irrefl _)

/-- The matches with the whole of a stack that has one scope more, the strongest first. -/
def innermost (t : Theme) (scopes : List String) (scope : String) : List Match :=
  (t.ranking (scopes ++ [scope])).filter (·.depth = scopes.length + 1)

/-- The innermost matches are those of the whole stack. -/
theorem mem_innermost {m : Match} :
    m ∈ t.innermost scopes scope ↔ m.depth = scopes.length + 1 ∧
      t.rules[m.place]? = some m.rule ∧ m.rule.selector.selects (scopes ++ [scope]) = true := by
  rw [innermost, List.mem_filter, mem_ranking, isMatch_concat, decide_eq_true_iff]
  constructor
  · rintro ⟨outer | whole, depth⟩
    · have within := outer.within
      omega
    · exact whole
  · exact fun whole => ⟨.inr whole, whole.1⟩

/-- Among the matches of the whole stack the strength of the rules decides. -/
theorem innermost_descending (t : Theme) (scopes : List String) (scope : String) :
    (t.innermost scopes scope).Pairwise fun a b => b.rank < a.rank :=
  (t.ranked_ranking (scopes ++ [scope])).descending.filter _

/-- The matches of the whole stack come in front of all others, whatever their rules. -/
theorem ranking_concat (t : Theme) (scopes : List String) (scope : String) :
    t.ranking (scopes ++ [scope]) = t.innermost scopes scope ++ t.ranking scopes := by
  refine (t.ranked_ranking _).eq (.of_descending (fun m => ?_) ?_)
  · rw [List.mem_append, mem_innermost, mem_ranking, isMatch_concat, or_comm]
  · refine List.pairwise_append.2
      ⟨t.innermost_descending scopes scope, (t.ranked_ranking scopes).descending, ?_⟩
    intro whole found outer found'
    have depth := (mem_innermost.1 found).1
    have within := (mem_ranking.1 found').within
    exact Prod.Lex.toLex_lt_toLex.2 (.inl (by omega))

/-- An attribute that no match of the whole stack sets is as it was without the innermost scope. -/
theorem value?_style_concat (t : Theme) (scopes : List String) (scope : String)
    (attr : Attribute) :
    (t.style (scopes ++ [scope])).value? attr =
      ((t.innermost scopes scope).findSome? (·.rule.style.value? attr)).or
        ((t.style scopes).value? attr) := by
  rw [value?_style, value?_style, ranking_concat, List.findSome?_append]

/-! ## The strongest of the rules -/

theorem Sets.mem_innermost {place : Nat} {rule : Rule} {value : attr.Value}
    (sets : t.Sets (scopes ++ [scope]) attr place rule value) :
    ⟨scopes.length + 1, place, rule⟩ ∈ t.innermost scopes scope :=
  Theme.mem_innermost.2 ⟨rfl, sets.placed, sets.selected⟩

/-- The first value that is found is that of the strongest rule. -/
theorem wins_of_findSome? {value : attr.Value}
    (found : (t.innermost scopes scope).findSome? (·.rule.style.value? attr) = some value) :
    ∃ place rule, t.Wins (scopes ++ [scope]) attr place rule value := by
  obtain ⟨before, m, behind, split, sets, silent⟩ := List.findSome?_eq_some_iff.1 found
  have descending := t.innermost_descending scopes scope
  have member : m ∈ t.innermost scopes scope := by simp [split]
  obtain ⟨depth, placed, selected⟩ := Theme.mem_innermost.1 member
  refine ⟨m.place, m.rule, ⟨placed, selected, sets⟩, fun place rule value' other => ?_⟩
  have member' := other.mem_innermost
  rw [split] at descending member'
  -- in front of the first match that sets the attribute there is no other, and behind it all rank
  -- lower
  rcases List.mem_append.1 member' with first | later
  · have unset := silent _ first
    rw [other.sets] at unset
    cases unset
  · rcases List.mem_cons.1 later with same | later
    · rw [← same]
    · obtain ⟨-, descending, -⟩ := List.pairwise_append.1 descending
      have weaker := (List.pairwise_cons.1 descending).1 _ later
      rcases Prod.Lex.toLex_lt_toLex.1 weaker with deeper | ⟨-, weaker⟩
      · exact absurd deeper (by simp [depth])
      · exact le_of_lt weaker

/-- What a theme gives to a stack is its own or inherited, attribute by attribute. -/
theorem takes_style (t : Theme) (scopes : List String) (scope : String) (attr : Attribute) :
    t.Takes (scopes ++ [scope]) attr ((t.style scopes).value? attr)
      ((t.style (scopes ++ [scope])).value? attr) := by
  rw [value?_style_concat]
  cases found : (t.innermost scopes scope).findSome? (·.rule.style.value? attr) with
  | some value =>
    obtain ⟨place, rule, wins⟩ := wins_of_findSome? found
    exact .own wins
  | none =>
    refine .inherited fun place rule value sets => ?_
    have unset := List.findSome?_eq_none_iff.1 found _ sets.mem_innermost
    rw [sets.sets] at unset
    cases unset

/-- Two rules are never equally strong. -/
theorem Wins.eq {place place' : Nat} {rule rule' : Rule} {value value' : attr.Value}
    (first : t.Wins scopes attr place rule value)
    (second : t.Wins scopes attr place' rule' value') : value = value' := by
  have same : strength place rule = strength place' rule' :=
    le_antisymm (second.strongest _ _ _ first.sets) (first.strongest _ _ _ second.sets)
  simp only [strength, toLex_inj, Prod.mk.injEq] at same
  obtain rfl := same.2.2
  obtain rfl := Option.some.inj (first.sets.placed.symm.trans second.sets.placed)
  exact Option.some.inj (first.sets.sets.symm.trans second.sets.sets)

/-- There is one value that a stack can take. -/
theorem Takes.eq {outer value value' : Option attr.Value}
    (first : t.Takes scopes attr outer value)
    (second : t.Takes scopes attr outer value') : value = value' := by
  cases first with
  | own wins =>
    cases second with
    | own wins' => rw [wins.eq wins']
    | inherited none => exact absurd wins.sets (none _ _ _)
  | inherited none =>
    cases second with
    | own wins => exact absurd wins.sets (none _ _ _)
    | inherited _ => rfl

/-- **Styles are inherited along the stack.**  With one scope more, each attribute is that of the
strongest of the rules that match the whole stack and set it, and what it was before if there is no
such rule.  A scope that no rule matches changes nothing. -/
theorem style_concat (t : Theme) (scopes : List String) (scope : String) :
    (∀ attr value, (t.style (scopes ++ [scope])).value? attr = value ↔
      t.Takes (scopes ++ [scope]) attr ((t.style scopes).value? attr) value) ∧
      ((∀ rule ∈ t.rules, rule.selector.selects (scopes ++ [scope]) = false) →
        t.style (scopes ++ [scope]) = t.style scopes) := by
  constructor
  · intro attr value
    have takes := t.takes_style scopes scope attr
    exact ⟨fun same => same ▸ takes, takes.eq⟩
  · intro unmatched
    refine Style.eq_of_value? fun attr => ?_
    refine (t.takes_style scopes scope attr).eq (.inherited ?_)
    intro place rule value sets
    have missed := unmatched rule (List.mem_of_getElem? sets.placed)
    rw [sets.selected] at missed
    cases missed

/-- The font of the stack is that of the last rule, and a scope that no rule matches keeps it. -/
theorem style_concat_unmatched :
    let t : Theme := ⟨"", .dark, [
      ⟨⟨"source", []⟩, { foreground := some .white, font := some .bold }⟩,
      ⟨⟨"string", [.anywhere "source"]⟩, { background := some .black, font := some .italic }⟩,
      ⟨⟨"string", [.parent "source"]⟩, { font := some .empty }⟩]⟩
    let scopes := ["source.js", "string.quoted"]
    (∀ rule ∈ t.rules, rule.selector.selects (scopes ++ ["punctuation"]) = false) ∧
      t.style (scopes ++ ["punctuation"]) = t.style scopes ∧
      (t.style scopes).font = some .empty := by
  intro t scopes
  have unmatched : ∀ rule ∈ t.rules,
      rule.selector.selects (scopes ++ ["punctuation"]) = false := by decide +kernel
  have last : t.Wins scopes .font 2 t.rules[2] .empty := by
    refine ⟨⟨rfl, by decide +kernel, rfl⟩, fun place rule value sets => ?_⟩
    have within : place < 3 := (List.getElem?_eq_some_iff.1 sets.placed).1
    obtain rfl : t.rules[place] = rule := (List.getElem?_eq_some_iff.1 sets.placed).2
    clear sets
    revert place
    decide +kernel
  exact ⟨unmatched, (t.style_concat scopes "punctuation").2 unmatched,
    ((t.style_concat ["source.js"] "string.quoted").1 .font (some .empty)).2 (.own last)⟩

end Theme

end CodeListing
