import CodeListing.Proofs.Selector
import CodeListing.Proofs.Separators
import CodeListing.Theme.Meaning

/-!
# Scopes in the order of their parts

A pattern covers a scope if it is the scope or is followed in it by a dot.  This compares characters,
but it comes to comparing parts: the parts of the pattern are the first parts of the scope
(`covers_iff_isPrefix`).  So covering is an order.  Patterns that cover one scope all begin that
scope, and nothing tells them apart but how many of its parts they have, which is why rules can be
ranked by that number.
-/

namespace CodeListing

/-! ## Cutting at dots and joining -/

theorem join_scopeParts (scope : String) : ['.'].intercalate (scopeParts scope) = scope.toList :=
  List.intercalate_splitOn '.'

theorem scopeParts_ne_nil (scope : String) : scopeParts scope ≠ [] := List.splitOn_ne_nil '.' _

/-- A scope is its parts. -/
theorem scopeParts_inj {a b : String} : scopeParts a = scopeParts b ↔ a = b := by
  refine ⟨fun same => String.toList_inj.1 ?_, congrArg scopeParts⟩
  rw [← join_scopeParts, same, join_scopeParts]

/-- A dot between two scopes puts their parts together. -/
theorem scopeParts_append (pattern rest : String) :
    scopeParts (pattern ++ "." ++ rest) = scopeParts pattern ++ scopeParts rest := by
  have text : (pattern ++ "." ++ rest).toList = pattern.toList ++ '.' :: rest.toList := by simp
  rw [scopeParts, text, List.splitOn_append_cons_self]
  rfl

/-! ## Covering -/

/-- A pattern covers the scopes that its parts begin. -/
theorem covers_iff_isPrefix {pattern scope : String} :
    Covers pattern scope ↔ scopeParts pattern <+: scopeParts scope := by
  constructor
  · rintro (rfl | ⟨rest, rfl⟩)
    · exact List.prefix_refl _
    · rw [scopeParts_append]
      exact List.prefix_append _ _
  · rintro ⟨more, same⟩
    by_cases whole : more = []
    · rw [whole, List.append_nil] at same
      exact .inl (scopeParts_inj.1 same.symm)
    · refine .inr ⟨String.ofList (['.'].intercalate more), String.toList_inj.1 ?_⟩
      rw [← join_scopeParts scope, ← same, Text.intercalate_append (scopeParts_ne_nil pattern) whole,
        join_scopeParts]
      simp

/-- **A pattern covers the scopes that its parts begin.**  So covering is an order on scopes, and
two targets that cover one scope and have equally many parts are one target. -/
theorem scopeCovers_order :
    (∀ pattern scope, scopeCovers pattern scope = true ↔ scopeParts pattern <+: scopeParts scope) ∧
      (∀ scope, scopeCovers scope scope = true) ∧
      (∀ a b c, scopeCovers a b = true → scopeCovers b c = true → scopeCovers a c = true) ∧
      (∀ a b, scopeCovers a b = true → scopeCovers b a = true → a = b) ∧
      ∀ (s s' : Selector) (scope : String), scopeCovers s.target scope = true →
        scopeCovers s'.target scope = true → s.parts = s'.parts → s.target = s'.target := by
  have covers (pattern scope : String) :
      scopeCovers pattern scope = true ↔ scopeParts pattern <+: scopeParts scope :=
    scopeCovers_iff.trans covers_iff_isPrefix
  refine ⟨covers, scopeCovers_self, ?_, ?_, ?_⟩
  · intro a b c outer inner
    rw [covers] at outer inner ⊢
    exact outer.trans inner
  · intro a b forth back
    rw [covers] at forth back
    exact scopeParts_inj.1 (forth.eq_of_length_le back.length_le)
  · intro s s' scope first second equal
    rw [covers] at first second
    rw [s.parts_eq, s'.parts_eq] at equal
    have begins := List.prefix_of_prefix_length_le first second (Nat.le_of_eq equal)
    exact scopeParts_inj.1 (begins.eq_of_length equal)

/-- A dot at the end of a pattern asks for an empty part behind it. -/
theorem scopeCovers_order_emptyPart :
    let s : Selector := ⟨"string.", []⟩
    let s' : Selector := ⟨"string.", [.anywhere "source"]⟩
    scopeCovers "string" s.target = true ∧ scopeCovers s.target "string..quoted" = true ∧
      scopeCovers "string" "string..quoted" = true ∧ scopeCovers s.target "string.quoted" = false ∧
      s.parts = s'.parts ∧ s.target = s'.target := by
  intro s s'
  have ended : scopeCovers "string" s.target = true := by decide
  have goesOn : scopeCovers s.target "string..quoted" = true := by decide
  have equal : s.parts = s'.parts := rfl
  obtain ⟨-, -, trans, -, told⟩ := scopeCovers_order
  exact ⟨ended, goesOn, trans _ _ _ ended goesOn, by decide, equal,
    told s s' "string..quoted" goesOn goesOn equal⟩

end CodeListing
