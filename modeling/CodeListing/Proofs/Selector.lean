import Mathlib.Data.List.Induction
import CodeListing.Theme.Meaning

/-!
# Selectors take the nearest place

`selects_iff_meansNearest` says what a match is: the ancestors are looked for one after the other,
and an ancestor that may stand anywhere is taken at the nearest place where it stands, once and for
all.  A match so made is always one with free choice of the places.  The other direction holds for
the selectors that ask for parents only before the first such ancestor (`meansNearest_of_means`);
for every other there is a stack that it misses (`exists_missed`).
-/

namespace CodeListing

/-! ## Scopes and places -/

/-- Comparing characters and looking at the next one tells whether a dot follows, or nothing. -/
theorem scopeCovers_iff {pattern scope : String} :
    scopeCovers pattern scope = true ↔ Covers pattern scope := by
  rw [scopeCovers, Bool.and_eq_true, List.isPrefixOf_iff_prefix]
  constructor
  · rintro ⟨⟨rest, same⟩, dotted⟩
    rw [← same, List.drop_left] at dotted
    match rest, dotted with
    | [], _ => exact .inl (String.toList_inj.1 (by rw [← same, List.append_nil]))
    | c :: rest, dotted =>
      obtain rfl := eq_of_beq dotted
      exact .inr ⟨String.ofList rest, String.toList_inj.1 (by simp [← same])⟩
  · rintro (rfl | ⟨rest, rfl⟩)
    · simp
    · simp

theorem scopeCovers_self (scope : String) : scopeCovers scope scope = true :=
  scopeCovers_iff.2 (.inl rfl)

/-- A scope goes on from a pattern only with a dot. -/
theorem exists_not_covers (pattern : String) : ∃ scope, scopeCovers pattern scope = false :=
  ⟨pattern ++ "a", by simp [scopeCovers]⟩

theorem standsAt_iff {scopes : List String} {place : Nat} (within : place < scopes.length)
    {pattern : String} :
    StandsAt scopes place pattern ↔ scopeCovers pattern scopes[place] = true := by
  simp [StandsAt, scopeCovers_iff, List.getElem?_eq_getElem within]

theorem StandsAt.lt_length {scopes : List String} {place : Nat} {pattern : String}
    (stands : StandsAt scopes place pattern) : place < scopes.length := by
  obtain ⟨scope, found, _⟩ := stands
  exact (List.getElem?_eq_some_iff.1 found).1

/-- The scopes below the first `above + 1`, from the innermost outwards. -/
theorem reverse_take_succ {scopes : List String} {above : Nat} (within : above < scopes.length) :
    (scopes.take (above + 1)).reverse = scopes[above] :: (scopes.take above).reverse := by
  rw [List.take_succ_eq_append_getElem within, List.reverse_append]
  rfl

/-- If the pattern stands at some place it stands at a nearest one. -/
theorem exists_nearest {scopes : List String} {pattern : String} {above place : Nat}
    (below : place < above) (stands : StandsAt scopes place pattern) :
    ∃ nearest, place ≤ nearest ∧ nearest < above ∧ StandsAt scopes nearest pattern ∧
      NoneBetween scopes pattern nearest above := by
  induction above with
  | zero => exact absurd below (Nat.not_lt_zero place)
  | succ above ih =>
    by_cases here : StandsAt scopes above pattern
    · exact ⟨above, by omega, by omega, here, fun between _ _ => by omega⟩
    · have lower : place < above := by
        rcases Nat.lt_or_eq_of_le (Nat.le_of_lt_succ below) with lower | rfl
        · exact lower
        · exact absurd stands here
      obtain ⟨nearest, le, lt, found, passed⟩ := ih lower
      refine ⟨nearest, le, by omega, found, fun between above' below' => ?_⟩
      rcases Nat.lt_or_eq_of_le (Nat.le_of_lt_succ below') with lower | rfl
      · exact passed between above' lower
      · exact here

/-- Looking for the pattern outwards from `above` ends at the nearest place where it stands. -/
theorem dropWhile_of_nearest {scopes : List String} {pattern : String} {above place : Nat}
    (within : above ≤ scopes.length) (below : place < above)
    (stands : StandsAt scopes place pattern) (passed : NoneBetween scopes pattern place above) :
    ∃ scope, (scopes.take above).reverse.dropWhile (!scopeCovers pattern ·) =
      scope :: (scopes.take place).reverse := by
  induction above with
  | zero => exact absurd below (Nat.not_lt_zero place)
  | succ above ih =>
    rw [reverse_take_succ within]
    rcases Nat.lt_or_eq_of_le (Nat.le_of_lt_succ below) with lower | rfl
    · have misses := mt (standsAt_iff within).2 (passed above lower (Nat.lt_succ_self above))
      rw [List.dropWhile_cons_of_pos (by simpa using misses)]
      exact ih (Nat.le_of_succ_le within) lower fun between above' below' =>
        passed between above' (Nat.lt_succ_of_lt below')
    · have hits := (standsAt_iff within).1 stands
      exact ⟨_, List.dropWhile_cons_of_neg (by simpa using hits)⟩

/-- Where an ancestor stands nowhere further out, the walk runs out of scopes. -/
theorem dropWhile_of_absent {scopes : List String} {pattern : String} {above : Nat}
    (within : above ≤ scopes.length) (absent : ∀ place < above, ¬ StandsAt scopes place pattern) :
    (scopes.take above).reverse.dropWhile (!scopeCovers pattern ·) = [] := by
  induction above with
  | zero => rfl
  | succ above ih =>
    have misses := mt (standsAt_iff within).2 (absent above (Nat.lt_succ_self above))
    rw [reverse_take_succ within, List.dropWhile_cons_of_pos (by simpa using misses)]
    exact ih (Nat.le_of_succ_le within) fun place below => absent place (Nat.lt_succ_of_lt below)

namespace Selector

/-! ## Placements -/

/-- Places that are reached are reached by any weaker condition. -/
theorem Placed.mono {reaches reaches' : Ancestor → Nat → Nat → Prop} {scopes : List String}
    (weaker : ∀ ancestor above place, reaches ancestor above place → reaches' ancestor above place)
    {above : Nat} {ancestors : List Ancestor} {places : List Nat}
    (placed : Placed reaches scopes above ancestors places) :
    Placed reaches' scopes above ancestors places := by
  induction placed with
  | nil => exact .nil
  | cons reached stands _ ih => exact .cons (weaker _ _ _ reached) stands ih

/-- There are places for some ancestors if there is one for the first and from there on for the
others. -/
theorem exists_placed_cons {reaches : Ancestor → Nat → Nat → Prop} {scopes : List String}
    {above : Nat} {ancestor : Ancestor} {others : List Ancestor} :
    (∃ places, Placed reaches scopes above (ancestor :: others) places) ↔
      ∃ place, reaches ancestor above place ∧ StandsAt scopes place ancestor.pattern ∧
        ∃ places, Placed reaches scopes place others places := by
  constructor
  · rintro ⟨_, placed⟩
    cases placed with
    | cons reached stands placed => exact ⟨_, reached, stands, _, placed⟩
  · rintro ⟨place, reached, stands, places, placed⟩
    exact ⟨_, .cons reached stands placed⟩

/-- The places are found one after the other, each the nearest behind the one before. -/
theorem ancestorsIn_iff {scopes : List String} {above : Nat} (within : above ≤ scopes.length)
    (ancestors : List Ancestor) :
    ancestorsIn ancestors (scopes.take above).reverse = true ↔
      ∃ places, Placed (Ancestor.ReachesNearest scopes) scopes above ancestors places := by
  induction ancestors generalizing above with
  | nil => exact iff_of_true rfl ⟨[], .nil⟩
  | cons ancestor others ih =>
    rw [exists_placed_cons]
    cases ancestor with
    | parent pattern =>
      cases above with
      | zero =>
        refine iff_of_false Bool.false_ne_true ?_
        rintro ⟨place, ⟨reached, _⟩, _⟩
        exact absurd reached (Nat.succ_ne_zero place)
      | succ above =>
        rw [reverse_take_succ within, ancestorsIn, Bool.and_eq_true, ← standsAt_iff within,
          ih (Nat.le_of_succ_le within)]
        constructor
        · rintro ⟨stands, placed⟩
          exact ⟨above, ⟨rfl, fun between _ _ => by omega⟩, stands, placed⟩
        · rintro ⟨place, ⟨reached, _⟩, stands, placed⟩
          obtain rfl := Nat.succ.inj reached
          exact ⟨stands, placed⟩
    | anywhere pattern =>
      rw [ancestorsIn]
      by_cases found : ∃ place, place < above ∧ StandsAt scopes place pattern
      · obtain ⟨place, below, stands⟩ := found
        obtain ⟨nearest, _, below, stands, passed⟩ := exists_nearest below stands
        obtain ⟨scope, left⟩ := dropWhile_of_nearest within below stands passed
        rw [left]
        refine (ih (Nat.le_of_lt stands.lt_length)).trans ⟨fun placed => ?_, ?_⟩
        · exact ⟨nearest, ⟨below, passed⟩, stands, placed⟩
        · rintro ⟨place, ⟨below', passed'⟩, stands', placed⟩
          -- two nearest places are one
          have same : place = nearest := by
            rcases Nat.lt_trichotomy place nearest with lower | same | higher
            · exact absurd stands (passed' nearest lower below)
            · exact same
            · exact absurd stands' (passed place higher below')
          rwa [← same]
      · have absent : ∀ place < above, ¬ StandsAt scopes place pattern :=
          fun place below stands => found ⟨place, below, stands⟩
        rw [dropWhile_of_absent within absent]
        refine iff_of_false Bool.false_ne_true ?_
        rintro ⟨place, ⟨below, _⟩, stands, _⟩
        exact absent place below stands

/-- The walk outwards selects a stack exactly if it meets the selector at the nearest places. -/
theorem selects_iff_meansNearest (s : Selector) (scopes : List String) :
    s.selects scopes = true ↔ s.MeansNearest scopes := by
  cases scopes using List.reverseRecOn with
  | nil =>
    refine iff_of_false Bool.false_ne_true ?_
    rintro ⟨last, _, length, _⟩
    exact absurd length.symm (Nat.succ_ne_zero last)
  | append_singleton outer scope =>
    have within : outer.length < (outer ++ [scope]).length := by simp
    have front : ((outer ++ [scope]).take outer.length).reverse = outer.reverse := by simp
    have innermost : (outer ++ [scope])[outer.length] = scope := by simp
    have rest := ancestorsIn_iff (Nat.le_of_lt within) s.ancestors
    rw [front] at rest
    rw [selects, List.reverse_append]
    change (scopeCovers s.target scope && ancestorsIn s.ancestors outer.reverse) = true ↔ _
    rw [Bool.and_eq_true, rest, ← innermost, ← standsAt_iff within, innermost]
    constructor
    · rintro ⟨stands, places, placed⟩
      exact ⟨outer.length, places, by simp, stands, placed⟩
    · rintro ⟨last, places, length, stands, placed⟩
      obtain rfl : outer.length = last := by simpa using length
      exact ⟨stands, places, placed⟩

/-- What is met at the nearest places is met. -/
theorem MeansNearest.means {s : Selector} {scopes : List String} (nearest : s.MeansNearest scopes) :
    s.Means scopes := by
  obtain ⟨last, places, length, stands, placed⟩ := nearest
  exact ⟨last, places, length, stands, placed.mono fun _ _ _ reached => reached.1⟩

/-! ## Parents first -/

/-- From further in, each ancestor that may stand anywhere is found no further out. -/
theorem exists_nearest_of_anywhere {scopes : List String} (patterns : List String)
    {above inner : Nat} (le : above ≤ inner) {places : List Nat}
    (placed : Placed Ancestor.Reaches scopes above (patterns.map .anywhere) places) :
    ∃ places, Placed (Ancestor.ReachesNearest scopes) scopes inner (patterns.map .anywhere)
      places := by
  induction patterns generalizing above inner places with
  | nil => exact ⟨[], .nil⟩
  | cons pattern patterns ih =>
    rw [List.map_cons] at placed
    cases placed with
    | cons reached stands placed =>
      obtain ⟨nearest, further, below, stands, passed⟩ :=
        exists_nearest (Nat.lt_of_lt_of_le reached le) stands
      exact exists_placed_cons.2 ⟨nearest, ⟨below, passed⟩, stands, ih further placed⟩

/-- Parents have no choice of a place. -/
theorem exists_nearest_of_parents {scopes : List String} (parents patterns : List String)
    {above : Nat} {places : List Nat}
    (placed : Placed Ancestor.Reaches scopes above
      (parents.map .parent ++ patterns.map .anywhere) places) :
    ∃ places, Placed (Ancestor.ReachesNearest scopes) scopes above
      (parents.map .parent ++ patterns.map .anywhere) places := by
  induction parents generalizing above places with
  | nil => exact exists_nearest_of_anywhere patterns (Nat.le_refl above) placed
  | cons parent parents ih =>
    rw [List.map_cons, List.cons_append] at placed
    cases placed with
    | @cons _ place _ _ _ reached stands placed =>
      have next : place + 1 = above := reached
      exact exists_placed_cons.2
        ⟨place, ⟨reached, fun between _ _ => by omega⟩, stands, ih placed⟩

/-- With all parents up front no choice of a place can be wrong, and the nearest will do. -/
theorem ParentsFirst.meansNearest_of_means {s : Selector} (first : s.ParentsFirst)
    {scopes : List String} (means : s.Means scopes) : s.MeansNearest scopes := by
  obtain ⟨parents, patterns, ancestors⟩ := first
  obtain ⟨last, places, length, stands, placed⟩ := means
  rw [ancestors] at placed
  obtain ⟨places, placed⟩ := exists_nearest_of_parents parents patterns placed
  exact ⟨last, places, length, stands, by rwa [ancestors]⟩

/-! ## Parents behind an ancestor that may stand anywhere -/

/-- Unless parents come first, one is asked for next to an ancestor that may stand anywhere. -/
theorem exists_of_not_parentsFirst {s : Selector} (not : ¬ s.ParentsFirst) :
    ∃ inner free parent outer,
      s.ancestors = inner ++ .anywhere free :: .parent parent :: outer := by
  suffices cut : ∀ ancestors : List Ancestor,
      (∃ parents others : List String, ancestors = parents.map .parent ++ others.map .anywhere) ∨
        ∃ inner free parent outer, ancestors = inner ++ .anywhere free :: .parent parent :: outer from
    (cut s.ancestors).resolve_left not
  intro ancestors
  induction ancestors with
  | nil => exact .inl ⟨[], [], rfl⟩
  | cons ancestor ancestors ih =>
    rcases ih with ⟨parents, others, rfl⟩ | ⟨inner, free, parent, outer, rfl⟩
    · cases ancestor with
      | parent pattern => exact .inl ⟨pattern :: parents, others, rfl⟩
      | anywhere pattern =>
        cases parents with
        | nil => exact .inl ⟨[], pattern :: others, rfl⟩
        | cons parent parents => exact .inr ⟨[], pattern, parent, _, rfl⟩
    · exact .inr ⟨ancestor :: inner, free, parent, outer, rfl⟩

/-- Ancestors that stand one directly below the other are found there. -/
theorem ancestorsIn_append (inner others : List Ancestor) (outer : List String) :
    ancestorsIn (inner ++ others) (inner.map Ancestor.pattern ++ outer) =
      ancestorsIn others outer := by
  induction inner with
  | nil => rfl
  | cons ancestor inner ih =>
    cases ancestor <;> simp [ancestorsIn, Ancestor.pattern, scopeCovers_self, ih]

theorem standsAt_length (outer inner : List String) (pattern : String) :
    StandsAt (outer ++ pattern :: inner) outer.length pattern :=
  ⟨pattern, by simp, .inl rfl⟩

theorem reaches_succ (ancestor : Ancestor) (place : Nat) : ancestor.Reaches (place + 1) place := by
  cases ancestor with
  | anywhere => exact Nat.lt_succ_self place
  | parent => rfl

/-- Ancestors that stand one directly below the other have their places there. -/
theorem exists_placed_append {scopes outer : List String} {others : List Ancestor}
    (placed : ∃ places, Placed Ancestor.Reaches scopes outer.length others places)
    (inner : List Ancestor) {further : List String}
    (text : scopes = outer ++ ((inner.map Ancestor.pattern).reverse ++ further)) :
    ∃ places, Placed Ancestor.Reaches scopes (outer.length + inner.length) (inner ++ others)
      places := by
  induction inner generalizing further with
  | nil => exact placed
  | cons ancestor inner ih =>
    have text' : scopes = outer ++ ((inner.map Ancestor.pattern).reverse ++
        ancestor.pattern :: further) := by simp [text]
    have stands := standsAt_length (outer ++ (inner.map Ancestor.pattern).reverse) further
      ancestor.pattern
    rw [List.append_assoc, ← text'] at stands
    simp only [List.length_append, List.length_reverse, List.length_map] at stands
    exact exists_placed_cons.2 ⟨_, reaches_succ ancestor _, stands, ih text'⟩

section Twice

variable (target : String) (inner outer : List Ancestor) (free parent other : String)

/-- A stack on which `free` stands twice, with the parent below its outer place only. -/
def twice : List String :=
  ((.parent parent :: outer).map Ancestor.pattern).reverse ++ [free, other, free] ++
    ((inner.map Ancestor.pattern).reverse ++ [target])

/-- The outer of the two places is the one to choose. -/
theorem means_twice :
    Means ⟨target, inner ++ .anywhere free :: .parent parent :: outer⟩
      (twice target inner outer free parent other) := by
  let base := ((.parent parent :: outer).map Ancestor.pattern).reverse
  let front := (inner.map Ancestor.pattern).reverse
  let scopes := twice target inner outer free parent other
  have text : scopes = base ++ free :: ([other, free] ++ (front ++ [target])) :=
    List.append_assoc ..
  have fixed : ∃ places,
      Placed Ancestor.Reaches scopes base.length (.parent parent :: outer) places := by
    have placed := exists_placed_append ⟨[], .nil⟩ (.parent parent :: outer)
      (text.trans (List.nil_append _).symm)
    simpa [base] using placed
  have stands : StandsAt scopes base.length free := by
    rw [text]
    exact standsAt_length base _ free
  have chosen : ∃ places, Placed Ancestor.Reaches scopes (base ++ [free, other, free]).length
      (.anywhere free :: .parent parent :: outer) places := by
    refine exists_placed_cons.2 ⟨base.length, ?_, stands, fixed⟩
    rw [List.length_append]
    exact Nat.lt_add_of_pos_right (Nat.zero_lt_succ 2)
  obtain ⟨places, placed⟩ := exists_placed_append chosen inner rfl
  have innermost := standsAt_length (base ++ [free, other, free] ++ front) [] target
  rw [List.append_assoc, List.length_append, List.length_reverse, List.length_map] at innermost
  have length : scopes.length = (base ++ [free, other, free]).length + inner.length + 1 := by
    simp only [scopes, twice, base, List.length_append, List.length_reverse, List.length_map,
      List.length_singleton]
    omega
  exact ⟨_, places, length, innermost, placed⟩

/-- The inner of the two places is taken, and below it the parent does not stand. -/
theorem selects_twice (misses : scopeCovers parent other = false) :
    selects ⟨target, inner ++ .anywhere free :: .parent parent :: outer⟩
      (twice target inner outer free parent other) = false := by
  have inward : (twice target inner outer free parent other).reverse =
      target :: (inner.map Ancestor.pattern ++
        (free :: other :: free :: parent :: outer.map Ancestor.pattern)) := by
    simp [twice, Ancestor.pattern]
  rw [selects, inward]
  change (scopeCovers target target && ancestorsIn _ _) = false
  rw [ancestorsIn_append]
  simp [ancestorsIn, scopeCovers_self, misses]

end Twice

/-- A selector with a parent behind an ancestor that may stand anywhere misses a stack that meets
it. -/
theorem exists_missed {s : Selector} (not : ¬ s.ParentsFirst) :
    ∃ scopes, s.Means scopes ∧ s.selects scopes = false := by
  obtain ⟨inner, free, parent, outer, ancestors⟩ := exists_of_not_parentsFirst not
  obtain ⟨other, misses⟩ := exists_not_covers parent
  have same : s = ⟨s.target, inner ++ .anywhere free :: .parent parent :: outer⟩ := by
    rw [← ancestors]
  rw [same]
  exact ⟨_, means_twice s.target inner outer free parent other,
    selects_twice s.target inner outer free parent other misses⟩

/-- **A match takes the nearest places.**  A stack is selected if the target stands innermost and,
from one ancestor to the next, there is a nearest place to go on from.  What is selected is meant.
What is meant is selected, whatever the stack, exactly if no parent is asked for behind an ancestor
that may stand anywhere. -/
theorem selects_nearest (s : Selector) :
    (∀ scopes, s.selects scopes = true ↔ s.MeansNearest scopes) ∧
      (∀ scopes, s.selects scopes = true → s.Means scopes) ∧
        ((∀ scopes, s.selects scopes = true ↔ s.Means scopes) ↔ s.ParentsFirst) := by
  have sound (scopes : List String) (selected : s.selects scopes = true) : s.Means scopes :=
    ((s.selects_iff_meansNearest scopes).1 selected).means
  refine ⟨s.selects_iff_meansNearest, sound, fun same => ?_, fun first scopes => ?_⟩
  · by_contra not
    obtain ⟨scopes, means, missed⟩ := exists_missed not
    rw [(same scopes).2 means] at missed
    cases missed
  · refine ⟨sound scopes, fun means => ?_⟩
    exact (s.selects_iff_meansNearest scopes).2 (first.meansNearest_of_means means)

/-- A parent up front and an ancestor that is found further out. -/
theorem selects_nearest_parentsFirst :
    let s : Selector := ⟨"string", [.parent "meta.function", .anywhere "source"]⟩
    let scopes := ["source.js", "source.js", "meta.function", "string.quoted"]
    s.selects scopes = true ∧ s.Means scopes ∧ s.ParentsFirst := by
  intro s scopes
  have selected : s.selects scopes = true := by decide +kernel
  exact ⟨selected, (selects_nearest s).2.1 scopes selected, ["meta.function"], ["source"], rfl⟩

/-- The inner `b` is taken, and below it there is no `x`; the outer `b` is not tried. -/
theorem not_selects_of_means :
    let s : Selector := ⟨"c", [.anywhere "b", .parent "x"]⟩
    let scopes := ["x", "b", "b", "c"]
    ofText? "x > b c" = some s ∧ s.Means scopes ∧ s.selects scopes = false := by
  intro s scopes
  have stands (place : Nat) (pattern : String) (found : scopes[place]? = some pattern) :
      StandsAt scopes place pattern := ⟨pattern, found, .inl rfl⟩
  have placed : Placed Ancestor.Reaches scopes 3 s.ancestors [1, 0] :=
    .cons (show 1 < 3 by decide) (stands 1 "b" rfl) (.cons rfl (stands 0 "x" rfl) .nil)
  exact ⟨by decide +kernel, ⟨3, [1, 0], rfl, stands 3 "c" rfl, placed⟩, by decide +kernel⟩

end Selector

end CodeListing
