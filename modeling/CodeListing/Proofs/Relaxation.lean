import CodeListing.Proofs.Selector
import CodeListing.Theme.Meaning

/-!
# Selectors keep their matches

A stack that is selected stays selected with more scopes around it, and it is selected by every
selector that asks for less (`Selector.selects_mono`).  As each ancestor is taken at the nearest
place where it stands, without a second try, this needs more than that the places are still there:
they have to be the nearest ones again.  They are the very same, for a parent stands where an
ancestor of its scope that may stand anywhere is looked for first, and scopes further out are looked
at last.
-/

namespace CodeListing

/-! ## Scopes further out -/

section Outer

variable (outer : List String) {scopes : List String}

/-- Scopes further out only move the places up. -/
theorem standsAt_append {place : Nat} {pattern : String} :
    StandsAt (outer ++ scopes) (outer.length + place) pattern ↔
      StandsAt scopes place pattern := by
  rw [StandsAt, StandsAt, List.getElem?_append_right (Nat.le_add_right _ _),
    Nat.add_sub_cancel_left]

/-- Between two places nothing changes by scopes further out. -/
theorem NoneBetween.append {pattern : String} {place above : Nat}
    (none : NoneBetween scopes pattern place above) :
    NoneBetween (outer ++ scopes) pattern (outer.length + place) (outer.length + above) := by
  intro between behind before
  obtain ⟨between, rfl⟩ := Nat.exists_eq_add_of_le (show outer.length ≤ between by omega)
  rw [standsAt_append]
  exact none between (by omega) (by omega)

theorem Ancestor.ReachesNearest.append {ancestor : Ancestor} {above place : Nat}
    (reached : ancestor.ReachesNearest scopes above place) :
    ancestor.ReachesNearest (outer ++ scopes) (outer.length + above) (outer.length + place) := by
  refine ⟨?_, reached.2.append outer⟩
  cases ancestor with
  | anywhere => exact Nat.add_lt_add_left reached.1 outer.length
  | parent => exact congrArg (outer.length + ·) reached.1

/-- The places move inwards by the number of scopes that are new. -/
theorem Selector.Placed.append {above : Nat} {ancestors : List Ancestor} {places : List Nat}
    (placed : Placed (Ancestor.ReachesNearest scopes) scopes above ancestors places) :
    Placed (Ancestor.ReachesNearest (outer ++ scopes)) (outer ++ scopes) (outer.length + above)
      ancestors (places.map (outer.length + ·)) := by
  induction placed with
  | nil => exact .nil
  | cons reached stands _ ih =>
    exact .cons (reached.append outer) ((standsAt_append outer).2 stands) ih

/-- A stack still meets a selector under further scopes. -/
theorem Selector.MeansNearest.append {s : Selector} (nearest : s.MeansNearest scopes) :
    s.MeansNearest (outer ++ scopes) := by
  obtain ⟨last, places, length, stands, placed⟩ := nearest
  have innermost : (outer ++ scopes).length = outer.length + last + 1 := by
    rw [List.length_append, length, Nat.add_assoc]
  exact ⟨_, _, innermost, (standsAt_append outer).2 stands, placed.append outer⟩

end Outer

/-! ## Parents that may stand anywhere -/

theorem Ancestor.Relaxes.pattern {ancestor ancestor' : Ancestor}
    (relaxes : ancestor.Relaxes ancestor') : ancestor'.pattern = ancestor.pattern := by
  cases relaxes <;> rfl

/-- The place next to a scope is the nearest one, for there is no place in between. -/
theorem Ancestor.ReachesNearest.relax {scopes : List String} {ancestor ancestor' : Ancestor}
    (relaxes : ancestor.Relaxes ancestor') {above place : Nat}
    (reached : ancestor.ReachesNearest scopes above place) :
    ancestor'.ReachesNearest scopes above place := by
  cases relaxes with
  | same => exact reached
  | freed scope =>
    have next : place + 1 = above := reached.1
    exact ⟨next ▸ Nat.lt_succ_self place, reached.2⟩

namespace Selector

/-- The places stay. -/
theorem Placed.relax {scopes : List String} {above : Nat} {ancestors ancestors' : List Ancestor}
    (relaxes : List.Forall₂ Ancestor.Relaxes ancestors ancestors') {places : List Nat}
    (placed : Placed (Ancestor.ReachesNearest scopes) scopes above ancestors places) :
    Placed (Ancestor.ReachesNearest scopes) scopes above ancestors' places := by
  induction placed generalizing ancestors' with
  | nil =>
    cases relaxes
    exact .nil
  | cons reached stands _ ih =>
    cases relaxes with
    | cons first others =>
      exact .cons (reached.relax first) (first.pattern ▸ stands) (ih others)

/-- A stack that meets a selector meets one that asks for less. -/
theorem MeansNearest.relax {s s' : Selector} (relaxes : s.Relaxes s') {scopes : List String}
    (nearest : s.MeansNearest scopes) : s'.MeansNearest scopes := by
  obtain ⟨last, places, length, stands, placed⟩ := nearest
  exact ⟨last, places, length, relaxes.target ▸ stands, placed.relax relaxes.ancestors⟩

/-! ## Ancestors that are not looked for -/

/-- Places for the ancestors are places for those asked for first. -/
theorem Placed.take {reaches : Ancestor → Nat → Nat → Prop} {scopes : List String} {above : Nat}
    {ancestors : List Ancestor} {places : List Nat}
    (placed : Placed reaches scopes above ancestors places) (count : Nat) :
    Placed reaches scopes above (ancestors.take count) (places.take count) := by
  induction placed generalizing count with
  | nil =>
    rw [List.take_nil, List.take_nil]
    exact .nil
  | cons reached stands _ ih =>
    cases count with
    | zero => exact .nil
    | succ count => exact .cons reached stands (ih count)

/-- A stack that meets a selector meets it without its outermost ancestor. -/
theorem MeansNearest.dropOutermost {s : Selector} {scopes : List String}
    (nearest : s.MeansNearest scopes) : s.dropOutermost.MeansNearest scopes := by
  obtain ⟨last, places, length, stands, placed⟩ := nearest
  refine ⟨last, places.take (s.ancestors.length - 1), length, stands, ?_⟩
  rw [Selector.dropOutermost, List.dropLast_eq_take]
  exact placed.take _

/-! ## Monotonicity -/

/-- **Asking for less, or of more scopes, keeps a match.**  A stack that is selected is selected
whatever scopes are put around it, whichever of the parents may stand anywhere instead, and without
the ancestor that is asked for furthest out. -/
theorem selects_mono {s : Selector} {scopes : List String} (selected : s.selects scopes = true) :
    (∀ outer, s.selects (outer ++ scopes) = true) ∧
      (∀ s', s.Relaxes s' → s'.selects scopes = true) ∧
      s.dropOutermost.selects scopes = true := by
  simp only [selects_iff_meansNearest] at selected ⊢
  refine ⟨fun outer => selected.append outer, fun s' relaxes => selected.relax relaxes, ?_⟩
  exact selected.dropOutermost

/-- The inner `source` is the nearest one, and it stays so when it need not be a parent. -/
theorem selects_mono_freed :
    let s : Selector := ⟨"string", [.anywhere "meta", .parent "source", .anywhere "text"]⟩
    let freed : Selector := ⟨"string", [.anywhere "meta", .anywhere "source", .anywhere "text"]⟩
    let scopes := ["text.html", "source.js", "source.css", "meta.function", "string.quoted"]
    s.selects scopes = true ∧ s.selects (["source", "meta"] ++ scopes) = true ∧
      s.Relaxes freed ∧ freed.selects scopes = true ∧ s.dropOutermost.selects scopes = true := by
  intro s freed scopes
  have selected : s.selects scopes = true := by decide +kernel
  have relaxes : s.Relaxes freed :=
    ⟨rfl, .cons (.same _) (.cons (.freed "source") (.cons (.same _) .nil))⟩
  obtain ⟨wrapped, relaxed, dropped⟩ := selects_mono selected
  exact ⟨selected, wrapped _, relaxes, relaxed freed relaxes, dropped⟩

end Selector

end CodeListing
