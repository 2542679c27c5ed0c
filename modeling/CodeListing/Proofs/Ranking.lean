import CodeListing.Theme.Ranking

/-!
# The rules that match, the strongest first

`ranked_ranking` says that sorting the matches found depth by depth and rule by rule gives the
ranking, and `Ranked.eq` that there is no other.
-/

namespace CodeListing.Theme

/-! ## Comparing matches -/

theorem decides_iff {m n : Nat} {others : Bool} :
    (if m ≠ n then decide (n < m) else others) = true ↔ n < m ∨ n = m ∧ others = true := by
  by_cases same : m = n
  · simp [same]
  · simp [same, Ne.symm same]

/-- The comparison by which matches are sorted is the order of their ranks. -/
theorem Match.outranks_iff {a b : Match} : a.outranks b = true ↔ b.rank ≤ a.rank := by
  simp only [Match.rank, strength, ← Selector.parts_eq, Prod.Lex.toLex_le_toLex]
  rw [Match.outranks, decides_iff, decides_iff, decides_iff, decide_eq_true_iff,
    Nat.le_iff_lt_or_eq]

/-- Matches of the same rank are of the same rule, for the same part of the stack. -/
theorem Match.place_eq_of_rank {a b : Match} (same : a.rank = b.rank) :
    a.depth = b.depth ∧ a.place = b.place := by
  simp only [Match.rank, strength, toLex_inj, Prod.mk.injEq] at same
  exact ⟨same.1, same.2.2.2⟩

/-! ## What is found -/

/-- For one part of the stack, the matches of the rules at their places are found. -/
theorem mem_matchesAt {t : Theme} {scopes : List String} {depth : Nat} {m : Match} :
    m ∈ t.matchesAt scopes depth ↔ m.depth = depth ∧ t.rules[m.place]? = some m.rule ∧
      m.rule.selector.selects (scopes.take depth) = true := by
  simp only [matchesAt, List.mem_filterMap, Prod.exists, List.mk_mem_zipIdx_iff_getElem?,
    Option.ite_none_right_eq_some]
  constructor
  · rintro ⟨rule, place, placed, selected, ⟨⟩⟩
    exact ⟨rfl, placed, selected⟩
  · rintro ⟨rfl, placed, selected⟩
    exact ⟨m.rule, m.place, placed, selected, rfl⟩

/-- The list holds the matches, for each part of the stack, and nothing else. -/
theorem mem_ranking {t : Theme} {scopes : List String} {m : Match} :
    m ∈ t.ranking scopes ↔ t.IsMatch scopes m := by
  rw [ranking, List.mem_mergeSort, List.mem_flatMap]
  constructor
  · rintro ⟨depth, within, found⟩
    obtain ⟨rfl, placed, selected⟩ := mem_matchesAt.1 found
    obtain ⟨positive, within⟩ := List.mem_range'_1.1 within
    exact ⟨positive, by omega, placed, selected⟩
  · rintro ⟨positive, within, placed, selected⟩
    exact ⟨m.depth, List.mem_range'_1.2 ⟨positive, by omega⟩,
      mem_matchesAt.2 ⟨rfl, placed, selected⟩⟩

/-- The two are not matches of one rule for one part of the stack. -/
def Apart (a b : Match) : Prop := (a.depth, a.place) ≠ (b.depth, b.place)

/-- For one part of the stack no rule is found twice. -/
theorem matchesAt_apart (t : Theme) (scopes : List String) (depth : Nat) :
    (t.matchesAt scopes depth).Pairwise Apart := by
  have places : t.rules.zipIdx.Pairwise fun a b => a.2 ≠ b.2 := by
    have nodup := List.nodup_range' (s := 0) (n := t.rules.length) 1
    rw [← List.zipIdx_map_snd] at nodup
    exact List.pairwise_map.1 nodup
  refine List.pairwise_filterMap.2 (places.imp ?_)
  rintro ⟨rule, place⟩ ⟨rule', place'⟩ differ m found m' found' same
  simp only [Option.ite_none_right_eq_some] at found found'
  obtain ⟨_, ⟨⟩⟩ := found
  obtain ⟨_, ⟨⟩⟩ := found'
  exact differ (Prod.mk.inj same).2

/-- No rule is found twice for the same part of the stack. -/
theorem ranking_apart (t : Theme) (scopes : List String) :
    (t.ranking scopes).Pairwise Apart := by
  refine ((List.mergeSort_perm ..).pairwise_iff Ne.symm).2 (List.pairwise_flatMap.2 ⟨?_, ?_⟩)
  · exact fun depth _ => t.matchesAt_apart scopes depth
  · refine (List.pairwise_lt_range' 1).imp fun {depth depth'} lt m found m' found' same => ?_
    obtain ⟨rfl, _⟩ := mem_matchesAt.1 found
    obtain ⟨rfl, _⟩ := mem_matchesAt.1 found'
    exact absurd (Prod.mk.inj same).1 (Nat.ne_of_lt lt)

/-! ## The ranking -/

/-- Sorting puts no match in front of one that outranks it. -/
theorem ranking_pairwise (t : Theme) (scopes : List String) :
    (t.ranking scopes).Pairwise fun a b => b.rank ≤ a.rank := by
  have transitive (a b c : Match) (first : a.outranks b = true) (second : b.outranks c = true) :
      a.outranks c = true := by
    rw [Match.outranks_iff] at *
    exact le_trans second first
  have total (a b : Match) : (a.outranks b || b.outranks a) = true := by
    rw [Bool.or_eq_true, Match.outranks_iff, Match.outranks_iff]
    exact le_total b.rank a.rank
  have sorted := List.pairwise_mergeSort transitive total
    ((List.range' 1 scopes.length).flatMap (t.matchesAt scopes))
  exact sorted.imp fun outranks => Match.outranks_iff.1 outranks

/-- The sorted list ranks the matches: as they are apart, their ranks go down strictly. -/
theorem ranked_ranking (t : Theme) (scopes : List String) :
    t.Ranked scopes (t.ranking scopes) := by
  have apart := t.ranking_apart scopes
  refine ⟨fun m => mem_ranking, List.pairwise_map.2 apart, ?_⟩
  refine (apart.and (t.ranking_pairwise scopes)).imp fun ⟨differ, le⟩ => ?_
  refine not_le.1 fun ge => differ ?_
  obtain ⟨depth, place⟩ := Match.place_eq_of_rank (le_antisymm ge le)
  rw [depth, place]

/-- A list whose ranks go down strictly holds nothing twice. -/
theorem Ranked.nodup {t : Theme} {scopes : List String} {ranked : List Match}
    (isRanked : t.Ranked scopes ranked) : ranked.Nodup := by
  refine List.Pairwise.imp ?_ isRanked.descending
  rintro a _ less rfl
  exact lt_irrefl a.rank less

/-- There is no other list that ranks the matches. -/
theorem Ranked.eq {t : Theme} {scopes : List String} {ranked ranked' : List Match}
    (first : t.Ranked scopes ranked) (second : t.Ranked scopes ranked') : ranked = ranked' := by
  have perm : ranked.Perm ranked' := by
    refine (List.perm_ext_iff_of_nodup first.nodup second.nodup).2 fun m => ?_
    rw [first.mem_iff, second.mem_iff]
  refine perm.eq_of_pairwise (fun a b _ _ less more => ?_) first.descending second.descending
  exact absurd (lt_trans less more) (lt_irrefl _)

/-- **Every match is listed once, the strongest first.**  The styles listed for a stack are those of
the rules that match it or an outer part of it, in the order of what decides between them: the
longer part of the stack, the more parts of the target, the more ancestors, the later place. -/
theorem matching_ranked (t : Theme) (scopes : List String) (styles : List Style) :
    t.matching scopes = styles ↔
      ∃ ranked, t.Ranked scopes ranked ∧ styles = ranked.map (·.rule.style) := by
  constructor
  · rintro rfl
    exact ⟨t.ranking scopes, t.ranked_ranking scopes, rfl⟩
  · rintro ⟨ranked, isRanked, rfl⟩
    rw [matching, (t.ranked_ranking scopes).eq isRanked]

end CodeListing.Theme
