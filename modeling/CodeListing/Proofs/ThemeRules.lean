import CodeListing.Proofs.Color
import CodeListing.Proofs.SelectorText
import CodeListing.Proofs.Separators
import CodeListing.Theme.Rules

/-!
# Which rules a theme gets

`Theme.ofSource_rules` compares the compiling of a theme file with what its rules stand for.  A
theme file is taken rule by rule (`Theme.rulesOf`), and of one rule it is known when it is at fault
and what it gives otherwise (`Rule.ofSource_eq_error_iff`, `Rule.ofSource_eq_ok_iff`).

A rule gives its settings to the selectors among its pieces, and nothing else of its scopes counts.
So rules with the same settings do together what one rule with all their pieces does
(`Theme.rulesOf_same_settings`).
-/

namespace CodeListing

/-! ## Settings -/

section Settings

variable {value : Option String} {e : Error} {s : SourceSettings}

/-- A setting is looked at only if it sets a color, which the empty text does not. -/
theorem SourceSettings.color?_eq_some_iff {text : String} :
    color? value = some text ↔ SetsColor value text := by
  cases value with
  | none => exact iff_of_false nofun nofun
  | some written =>
    have trimmed : String.ofList (Text.trim written.toList) = text ↔
        Text.Trimmed written.toList text.toList := by
      rw [← Text.trim_eq_iff, ← String.toList_inj, String.toList_ofList]
    simp only [color?, Option.ite_none_left_eq_some, not_or, Option.some_inj, SetsColor,
      exists_eq_left', ← trimmed]
    constructor
    · rintro ⟨⟨notEmpty, notInherit⟩, rfl⟩
      exact ⟨rfl, notEmpty, notInherit⟩
    · rintro ⟨rfl, notEmpty, notInherit⟩
      exact ⟨⟨notEmpty, notInherit⟩, rfl⟩

/-- A setting fails with what reading its color fails with. -/
theorem mapM_named_eq_error_iff :
    (SourceSettings.color? value).mapM Color.named = .error e ↔
      ∃ text, SetsColor value text ∧ Color.named text = .error e := by
  simp only [← SourceSettings.color?_eq_some_iff]
  cases SourceSettings.color? value with
  | none => exact iff_of_false nofun nofun
  | some text =>
    rw [Option.mapM_some, map_eq_pure_bind, bind_eq_error_iff]
    simp [pure, Except.pure]

/-- A setting gives the color it sets, and none if it sets none. -/
theorem mapM_named_eq_ok_iff {color : Option Color} :
    (SourceSettings.color? value).mapM Color.named = .ok color ↔ GivesColor value color := by
  cases set : SourceSettings.color? value with
  | none =>
    have unset : ∀ text, ¬ SetsColor value text := by
      simp [← SourceSettings.color?_eq_some_iff, set]
    constructor
    · intro read
      cases read
      exact .unset unset
    · rintro (- | ⟨sets, -⟩)
      · rfl
      · exact absurd sets (unset _)
  | some text =>
    have sets := SourceSettings.color?_eq_some_iff.1 set
    rw [Option.mapM_some, map_eq_pure_bind, bind_eq_ok_iff]
    constructor
    · rintro ⟨c, named, same⟩
      cases same
      exact .set sets named
    · rintro (unset | ⟨sets', named⟩)
      · exact absurd sets (unset text)
      · rw [← SourceSettings.color?_eq_some_iff, set] at sets'
        cases sets'
        exact ⟨_, named, rfl⟩

/-- The style of the settings is what they mean. -/
theorem Style.ofSettings_eq_ok_iff {style : Style} : ofSettings s = .ok style ↔ s.Means style := by
  simp only [ofSettings, SourceSettings.foregroundText, SourceSettings.backgroundText,
    bind_eq_ok_iff, mapM_named_eq_ok_iff]
  constructor
  · rintro ⟨foreground, gives, background, gives', same⟩
    cases same
    exact ⟨gives, gives', rfl⟩
  · rintro ⟨gives, gives', font⟩
    refine ⟨_, gives, _, gives', congrArg Except.ok ?_⟩
    rw [← font]

/-- A setting gives a color, or none, unless the color it sets cannot be read. -/
theorem exists_givesColor_iff :
    (∃ color, GivesColor value color) ↔
      ∀ text e, SetsColor value text → Color.named text ≠ .error e := by
  simp only [← mapM_named_eq_ok_iff]
  cases read : (SourceSettings.color? value).mapM Color.named with
  | ok color =>
    refine iff_of_true ⟨color, rfl⟩ fun text e sets rejected => ?_
    have failed := mapM_named_eq_error_iff.2 ⟨text, sets, rejected⟩
    rw [read] at failed
    cases failed
  | error e =>
    obtain ⟨text, sets, rejected⟩ := mapM_named_eq_error_iff.1 read
    exact iff_of_false nofun fun sound => sound text e sets rejected

/-- The settings fail with their fault: that of the foreground, or that of the background if the
foreground has none. -/
theorem Style.ofSettings_eq_error_iff : ofSettings s = .error e ↔ s.Fault e := by
  simp only [ofSettings, SourceSettings.foregroundText, SourceSettings.backgroundText]
  rw [bind_eq_error_iff, mapM_named_eq_error_iff]
  constructor
  · rintro (⟨text, sets, rejected⟩ | ⟨foreground, read, next⟩)
    · exact .foreground sets rejected
    · have sound := exists_givesColor_iff.1 ⟨foreground, mapM_named_eq_ok_iff.1 read⟩
      rcases bind_eq_error_iff.1 next with failed | ⟨background, -, same⟩
      · obtain ⟨text, sets, rejected⟩ := mapM_named_eq_error_iff.1 failed
        exact .background sound sets rejected
      · cases same
  · rintro (⟨sets, rejected⟩ | ⟨sound, sets, rejected⟩)
    · exact .inl ⟨_, sets, rejected⟩
    · obtain ⟨foreground, gives⟩ := exists_givesColor_iff.2 sound
      have failed := mapM_named_eq_error_iff.2 ⟨_, sets, rejected⟩
      exact .inr ⟨foreground, mapM_named_eq_ok_iff.2 gives, bind_eq_error_iff.2 (.inl failed)⟩

/-- Settings are at fault exactly if they set a color that is none. -/
theorem SourceSettings.exists_fault_iff :
    (∃ e, s.Fault e) ↔
      ∃ text, (SetsColor s.foreground text ∨ SetsColor s.background text) ∧
        ∃ e, Color.named text = .error e := by
  constructor
  · rintro ⟨e, ⟨sets, rejected⟩ | ⟨-, sets, rejected⟩⟩
    · exact ⟨_, .inl sets, e, rejected⟩
    · exact ⟨_, .inr sets, e, rejected⟩
  · rintro ⟨text, sets | sets, e, rejected⟩
    · exact ⟨e, .foreground sets rejected⟩
    · by_cases sound : ∀ text e, SetsColor s.foreground text → Color.named text ≠ .error e
      · exact ⟨e, .background sound sets rejected⟩
      · push Not at sound
        obtain ⟨text', e', sets', rejected'⟩ := sound
        exact ⟨e', .foreground sets' rejected'⟩

end Settings

/-! ## The selectors of a rule -/

namespace SourceRule

variable {r : SourceRule}

/-- The selectors of a rule are those of its pieces, without the white space around them. -/
theorem selectors_eq (r : SourceRule) :
    r.selectors =
      (r.pieces.map Text.trim).filterMap fun piece => Selector.ofText? (String.ofList piece) := by
  simp only [selectors, List.filterMap_map, Function.comp_def, Selector.ofText?_trim]

theorem filterMap_selectorTexts (r : SourceRule) :
    r.selectorTexts.filterMap Selector.ofText? = r.selectors := by
  have trimmed : (r.scope.flatMap fun scope => (scope.toList.splitOn ',').map Text.trim) =
      r.pieces.map Text.trim := by
    rw [pieces, List.map_flatMap]
  rw [selectorTexts, trimmed, List.filterMap_filterMap, selectors_eq]
  refine List.filterMap_congr fun piece _ => ?_
  cases piece with
  | nil =>
    -- an empty piece is no selector
    have none : Selector.ofText? (String.ofList []) = none :=
      Selector.ofText?_eq_none_iff.2 (.inl (by simp))
    exact none.symm
  | cons c piece => rw [List.isEmpty_cons, if_neg Bool.false_ne_true, Option.bind_some]

theorem pieces_ne_nil (hasScopes : r.scope ≠ []) : r.pieces ≠ [] := by
  obtain ⟨scope, others, split⟩ := List.exists_cons_of_ne_nil hasScopes
  rw [pieces, split, List.flatMap_cons]
  exact List.append_ne_nil_of_left_ne_nil (List.splitOn_ne_nil ',' scope.toList) _

end SourceRule

/-! ## One rule -/

namespace Rule

variable {r : SourceRule} {e : Error}

theorem ofSource_of_unscoped (unscoped : r.scope = []) : ofSource r = .ok [] := by
  rw [ofSource, unscoped]
  rfl

theorem ofSource_of_scope (hasScopes : r.scope ≠ []) :
    ofSource r = (Style.ofSettings r.settings).map fun style => r.selectors.map (⟨·, style⟩) := by
  rw [ofSource, if_neg (by simpa using hasScopes)]
  simp only [r.filterMap_selectorTexts]
  rfl

/-- A rule fails with its fault, and one without a scope has none. -/
theorem ofSource_eq_error_iff : ofSource r = .error e ↔ r.Fault e := by
  rw [SourceRule.Fault, ← Style.ofSettings_eq_error_iff]
  by_cases unscoped : r.scope = []
  · rw [ofSource_of_unscoped unscoped]
    exact iff_of_false nofun fun fault => fault.1 unscoped
  · rw [ofSource_of_scope unscoped]
    cases Style.ofSettings r.settings <;> simp [Except.map, unscoped]

/-- A rule stands for nothing without a scope, and otherwise for its selectors. -/
theorem ofSource_eq_ok_iff {rules : List Rule} :
    ofSource r = .ok rules ↔
      r.scope = [] ∧ rules = [] ∨
        r.scope ≠ [] ∧ ∃ style, r.settings.Means style ∧ rules = r.selectors.map (⟨·, style⟩) := by
  simp only [← Style.ofSettings_eq_ok_iff]
  by_cases unscoped : r.scope = []
  · rw [ofSource_of_unscoped unscoped]
    simp [unscoped, eq_comm]
  · rw [ofSource_of_scope unscoped]
    cases Style.ofSettings r.settings <;> simp [Except.map, unscoped, eq_comm]

end Rule

/-! ## All rules -/

namespace Theme

variable {file : List SourceRule} {rules : List Rule} {e : Error}

/-- The rules of a theme whose file has these. -/
def rulesOf (file : List SourceRule) : Except Error (List Rule) := do
  return (← file.mapM Rule.ofSource).flatten

theorem ofSource_eq_rulesOf (t : ThemeSource) :
    ofSource t = (rulesOf t.rules).map fun rules =>
      ⟨t.name, (t.kind.map ThemeKind.ofText).getD .default, rules⟩ := by
  rw [ofSource, rulesOf]
  cases t.rules.mapM Rule.ofSource <;> rfl

theorem rulesOf_append (before behind : List SourceRule) :
    rulesOf (before ++ behind) = do return (← rulesOf before) ++ (← rulesOf behind) := by
  simp [rulesOf]

theorem rulesOf_cons (r : SourceRule) (others : List SourceRule) :
    rulesOf (r :: others) = do return (← Rule.ofSource r) ++ (← rulesOf others) := by
  simp [rulesOf]

/-- A file is read if all its rules are, and gives what they stand for, in their order. -/
theorem rulesOf_eq_ok_iff : rulesOf file = .ok rules ↔ SourceRule.StandFor file rules := by
  induction file generalizing rules with
  | nil =>
    constructor
    · intro read
      cases read
      exact .nil
    · intro standFor
      cases standFor
      rfl
  | cons r others ih =>
    simp only [rulesOf_cons, bind_eq_ok_iff, Rule.ofSource_eq_ok_iff, ih]
    constructor
    · rintro ⟨first, ⟨unscoped, rfl⟩ | ⟨hasScopes, style, means, rfl⟩, rest, standFor, same⟩
      · cases same
        exact .page unscoped standFor
      · cases same
        exact .rule hasScopes means standFor
    · rintro (- | ⟨unscoped, standFor⟩ | ⟨hasScopes, means, standFor⟩)
      · exact ⟨[], .inl ⟨unscoped, rfl⟩, _, standFor, rfl⟩
      · exact ⟨_, .inr ⟨hasScopes, _, means, rfl⟩, _, standFor, rfl⟩

/-- The first fault is that of the first rule, or else that of the others. -/
theorem firstFault_cons_iff {r : SourceRule} {others : List SourceRule} :
    SourceRule.FirstFault (r :: others) e ↔
      r.Fault e ∨ (∀ e', ¬ r.Fault e') ∧ SourceRule.FirstFault others e := by
  constructor
  · rintro ⟨before, r', behind, split, sound, fault⟩
    cases before with
    | nil =>
      cases split
      exact .inl fault
    | cons first before =>
      cases split
      obtain ⟨first, sound⟩ := List.forall_mem_cons.1 sound
      exact .inr ⟨first, before, r', behind, rfl, sound, fault⟩
  · rintro (fault | ⟨first, before, r', behind, rfl, sound, fault⟩)
    · exact ⟨[], r, others, rfl, nofun, fault⟩
    · exact ⟨r :: before, r', behind, rfl, List.forall_mem_cons.2 ⟨first, sound⟩, fault⟩

/-- A file fails with the fault of its first faulty rule. -/
theorem rulesOf_eq_error_iff : rulesOf file = .error e ↔ SourceRule.FirstFault file e := by
  induction file with
  | nil => exact iff_of_false nofun (by simp [SourceRule.FirstFault])
  | cons r others ih =>
    simp only [rulesOf_cons, bind_eq_error_iff, firstFault_cons_iff, ← ih,
      ← Rule.ofSource_eq_error_iff]
    cases Rule.ofSource r with
    | error e' => simp
    | ok first => simp [pure, Except.pure]

theorem exists_firstFault_iff :
    (∃ e, SourceRule.FirstFault file e) ↔ ∃ r ∈ file, ∃ e, r.Fault e := by
  induction file with
  | nil => simp [SourceRule.FirstFault]
  | cons r others ih =>
    simp only [firstFault_cons_iff, exists_or, exists_and_left, ih]
    rw [← not_exists, List.exists_mem_cons_iff]
    exact or_congr_right' fun sound => and_iff_right sound

/-! ## Other ways to write a rule -/

/-- Rules with the same settings give these settings to all their selectors. -/
theorem rulesOf_same_settings {settings : SourceSettings} (some : file ≠ [])
    (haveScopes : ∀ r ∈ file, r.scope ≠ []) (same : ∀ r ∈ file, r.settings = settings) :
    rulesOf file = (Style.ofSettings settings).map fun style =>
      (file.flatMap SourceRule.selectors).map (⟨·, style⟩) := by
  cases read : Style.ofSettings settings with
  | error e =>
    obtain ⟨r, others, rfl⟩ := List.exists_cons_of_ne_nil some
    rw [rulesOf_cons, Rule.ofSource_of_scope (haveScopes r List.mem_cons_self),
      same r List.mem_cons_self, read]
    rfl
  | ok style =>
    clear some
    induction file with
    | nil => rfl
    | cons r others ih =>
      obtain ⟨first, haveScopes⟩ := List.forall_mem_cons.1 haveScopes
      obtain ⟨same, sameOthers⟩ := List.forall_mem_cons.1 same
      rw [rulesOf_cons, Rule.ofSource_of_scope first, same, read, ih haveScopes sameOthers,
        List.flatMap_cons]
      exact congrArg Except.ok List.map_append.symm

/-- A rule that is spelled in another way, in one rule or many, stands for the same rules. -/
theorem rulesOf_respelled {r : SourceRule} (hasScopes : r.scope ≠ [])
    (respelled : r.Respelled file) : rulesOf file = rulesOf [r] := by
  have some : file ≠ [] := by
    rintro rfl
    have pieces := respelled.pieces
    simp [r.pieces_ne_nil hasScopes] at pieces
  have selectors : file.flatMap SourceRule.selectors = r.selectors := by
    rw [r.selectors_eq, ← respelled.pieces, List.map_flatMap, List.filterMap_flatMap]
    exact List.flatMap_congr fun part _ => part.selectors_eq
  rw [rulesOf_same_settings some respelled.haveScopes respelled.settings, selectors,
    rulesOf_cons, Rule.ofSource_of_scope hasScopes]
  cases Style.ofSettings r.settings <;> simp [Except.map, rulesOf]

end Theme

namespace SourceRule

variable {r : SourceRule}

theorem not_mem_of_mem_pieces {piece : List Char} (mem : piece ∈ r.pieces) : ',' ∉ piece := by
  obtain ⟨scope, -, mem⟩ := List.mem_flatMap.1 mem
  exact Text.not_mem_of_mem_splitOn mem

/-- Cutting the pieces at commas once more changes nothing. -/
theorem flatMap_splitOn_pieces (r : SourceRule) : r.pieces.flatMap (·.splitOn ',') = r.pieces := by
  have whole : ∀ piece ∈ r.pieces, piece.splitOn ',' = [piece] :=
    fun piece mem => List.splitOn_eq_singleton (not_mem_of_mem_pieces mem)
  rw [List.flatMap_congr whole, List.flatMap_singleton']

/-- A rule for each piece spells the rule in another way. -/
theorem respelled_perPiece (r : SourceRule) : r.Respelled r.perPiece := by
  have pieces : r.perPiece.flatMap SourceRule.pieces = r.pieces := by
    rw [perPiece, List.flatMap_map]
    simpa [SourceRule.pieces] using r.flatMap_splitOn_pieces
  refine ⟨?_, ?_, congrArg _ pieces⟩ <;> simp [perPiece]

theorem respelled_inList (hasScopes : r.scope ≠ []) : r.Respelled [r.inList] := by
  have pieces : r.inList.pieces = r.pieces := by
    rw [inList, SourceRule.pieces, List.flatMap_map]
    simpa using r.flatMap_splitOn_pieces
  refine ⟨?_, by simp [inList], by simp [pieces]⟩
  simpa [inList] using pieces_ne_nil hasScopes

theorem respelled_inText (hasScopes : r.scope ≠ []) : r.Respelled [r.inText] := by
  have pieces : r.inText.pieces = r.pieces := by
    rw [inText, SourceRule.pieces, List.flatMap_singleton, String.toList_ofList]
    exact List.splitOn_intercalate ',' (fun piece => not_mem_of_mem_pieces) (pieces_ne_nil hasScopes)
  exact ⟨by simp [inText], by simp [inText], by simp [pieces]⟩

end SourceRule

/-! ## The theme -/

namespace Theme

/-- A theme fails with the fault of its first faulty rule. -/
theorem ofSource_eq_error_iff {t : ThemeSource} {e : Error} :
    ofSource t = .error e ↔ SourceRule.FirstFault t.rules e := by
  rw [ofSource_eq_rulesOf, ← rulesOf_eq_error_iff]
  cases rulesOf t.rules <;> simp [Except.map]

/-- A theme has the name and the kind of the file, and the rules the file stands for. -/
theorem ofSource_eq_ok_iff {t : ThemeSource} {theme : Theme} :
    ofSource t = .ok theme ↔
      theme.name = t.name ∧ theme.kind = (t.kind.map ThemeKind.ofText).getD .default ∧
        SourceRule.StandFor t.rules theme.rules := by
  rw [ofSource_eq_rulesOf, ← rulesOf_eq_ok_iff]
  obtain ⟨name, kind, rules⟩ := theme
  cases rulesOf t.rules with
  | error e => exact iff_of_false nofun nofun
  | ok rules' => simp [Except.map, eq_comm]

/-- Wherever the rule stands in the file, spelling it in another way leaves the theme. -/
theorem ofSource_respelled {t : ThemeSource} {before behind rules : List SourceRule}
    {r : SourceRule} (placed : t.rules = before ++ r :: behind) (hasScopes : r.scope ≠ [])
    (respelled : r.Respelled rules) :
    ofSource { t with rules := before ++ (rules ++ behind) } = ofSource t := by
  have same : rulesOf (before ++ (rules ++ behind)) = rulesOf t.rules := by
    rw [placed, ← List.singleton_append, rulesOf_append, rulesOf_append rules,
      rulesOf_respelled hasScopes respelled, ← rulesOf_append, ← rulesOf_append]
  rw [ofSource_eq_rulesOf, ofSource_eq_rulesOf, same]

/-- **Compiling a theme keeps its rules in order and fails only for a color.**  A theme file gives no
theme exactly if a rule with scopes sets a color that is none, and its error is that of the first
such rule, that of the foreground if both colors are none.  Any other theme file gives the theme
with the rules that its rules stand for.  Where a rule with scopes stands, rules with its settings
and together its pieces may stand as well: the theme or the error is the same.  Such are a rule for
each piece, the rule with all pieces in a list, and the rule with all pieces in one text. -/
theorem ofSource_rules (t : ThemeSource) :
    (∀ e, ofSource t = .error e ↔ SourceRule.FirstFault t.rules e) ∧
      ((∃ e, ofSource t = .error e) ↔ ∃ r ∈ t.rules, r.scope ≠ [] ∧ ∃ text,
        (SetsColor r.settings.foreground text ∨ SetsColor r.settings.background text) ∧
          ∃ e, Color.named text = .error e) ∧
      (∀ theme, ofSource t = .ok theme ↔
        theme.name = t.name ∧ theme.kind = (t.kind.map ThemeKind.ofText).getD .default ∧
          SourceRule.StandFor t.rules theme.rules) ∧
      ∀ before r behind, t.rules = before ++ r :: behind → r.scope ≠ [] →
        (∀ rules ∈ [r.perPiece, [r.inList], [r.inText]], r.Respelled rules) ∧
          ∀ rules, r.Respelled rules →
            ofSource { t with rules := before ++ (rules ++ behind) } = ofSource t := by
  refine ⟨fun e => ofSource_eq_error_iff, ?_, fun theme => ofSource_eq_ok_iff, ?_⟩
  · simp only [ofSource_eq_error_iff, exists_firstFault_iff, SourceRule.Fault, exists_and_left,
      SourceSettings.exists_fault_iff]
  · intro before r behind placed hasScopes
    refine ⟨?_, fun rules => ofSource_respelled placed hasScopes⟩
    simpa using ⟨r.respelled_perPiece, SourceRule.respelled_inList hasScopes,
      SourceRule.respelled_inText hasScopes⟩

/-- The rule without scopes may have any color.  The pieces of the other one are a selector, a sign
with no scope behind it, nothing, and a selector. -/
theorem ofSource_rules_perPiece :
    let page : SourceRule := ⟨[], ⟨"none", none, none⟩⟩
    let settings : SourceSettings := ⟨" inherit ", "#012", none⟩
    let style : Style := { background := some ⟨0, 17, 34, 255⟩ }
    let r : SourceRule := ⟨["comment, string >,", "source.rs string"], settings⟩
    let t : ThemeSource := { rules := [page, r] }
    ofSource t = .ok ⟨"", .dark,
        [⟨⟨"comment", []⟩, style⟩, ⟨⟨"string", [.anywhere "source.rs"]⟩, style⟩]⟩ ∧
      ofSource { t with rules := [page, ⟨["comment"], settings⟩, ⟨[" string >"], settings⟩,
        ⟨[""], settings⟩, ⟨["source.rs string"], settings⟩] } = ofSource t := by
  intro page settings style r t
  have pieces : r.perPiece = [⟨["comment"], settings⟩, ⟨[" string >"], settings⟩,
      ⟨[""], settings⟩, ⟨["source.rs string"], settings⟩] := by decide +kernel
  obtain ⟨-, -, -, respelled⟩ := ofSource_rules t
  obtain ⟨respellings, same⟩ := respelled [page] r [] rfl (List.cons_ne_nil _ _)
  have perPiece := same r.perPiece (respellings _ List.mem_cons_self)
  rw [pieces] at perPiece
  exact ⟨by decide +kernel, perPiece⟩

end Theme

end CodeListing
