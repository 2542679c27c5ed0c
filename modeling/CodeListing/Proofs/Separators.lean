import Mathlib.Data.List.Basic

/-!
# Texts in pieces

What is put together with a separator between the pieces, and what a text is cut into at a separator.
-/

namespace CodeListing.Text

variable {separator : Char}

/-- Pieces that do not hold the separator behind them are told from what follows it. -/
theorem append_cons_inj {piece piece' rest rest' : List Char} (none : separator ∉ piece)
    (none' : separator ∉ piece') :
    piece ++ separator :: rest = piece' ++ separator :: rest' ↔ piece = piece' ∧ rest = rest' := by
  constructor
  · intro same
    have length : piece.length = piece'.length := by
      have place := congrArg (List.idxOf separator) same
      rwa [List.idxOf_append_of_notMem none, List.idxOf_append_of_notMem none',
        List.idxOf_cons_self, List.idxOf_cons_self] at place
    obtain ⟨first, tail⟩ := List.append_inj same length
    exact ⟨first, (List.cons.inj tail).2⟩
  · rintro ⟨rfl, rfl⟩
    rfl

/-- Behind the first piece each piece has a separator in front. -/
theorem intercalate_cons (piece : List Char) (pieces : List (List Char)) :
    [separator].intercalate (piece :: pieces) = piece ++ pieces.flatMap (separator :: ·) := by
  induction pieces generalizing piece with
  | nil => simp
  | cons next pieces ih =>
    rw [List.intercalate_cons_cons, ih, List.flatMap_cons, List.cons_append, List.append_assoc]
    rfl

/-- Two lists of pieces are joined by one separator between them. -/
theorem intercalate_append {first more : List (List Char)} (some : first ≠ [])
    (some' : more ≠ []) :
    [separator].intercalate (first ++ more) =
      [separator].intercalate first ++ separator :: [separator].intercalate more := by
  obtain ⟨piece, others, rfl⟩ := List.exists_cons_of_ne_nil some
  obtain ⟨next, behind, rfl⟩ := List.exists_cons_of_ne_nil some'
  rw [List.cons_append, intercalate_cons, intercalate_cons, intercalate_cons, List.flatMap_append,
    List.flatMap_cons, List.append_assoc, List.cons_append]

/-- A word without the separator does not stand across it. -/
theorem infix_append_cons {word front behind : List Char} (none : separator ∉ word) :
    word <:+: front ++ separator :: behind ↔ word <:+: front ∨ word <:+: behind := by
  constructor
  · intro stands
    rcases List.infix_append_iff.1 stands with inFront | later | ⟨first, last, rfl, ends, begins⟩
    · exact .inl inFront
    · rcases List.infix_cons_iff.1 later with begins | inBehind
      · rcases List.prefix_cons_iff.1 begins with rfl | ⟨rest, rfl, -⟩
        · exact .inl List.nil_infix
        · exact absurd List.mem_cons_self none
      · exact .inr inBehind
    · rcases List.prefix_cons_iff.1 begins with rfl | ⟨rest, rfl, -⟩
      · rw [List.append_nil]
        exact .inl ends.isInfix
      · exact absurd (List.mem_append_right first List.mem_cons_self) none
  · rintro (inFront | inBehind)
    · exact List.infix_append_iff.2 (.inl inFront)
    · exact List.infix_append_iff.2 (.inr (.inl (List.infix_cons_iff.2 (.inr inBehind))))

/-- A word without the separator stands in one of the pieces. -/
theorem infix_intercalate {word : List Char} (some : word ≠ []) (none : separator ∉ word)
    {pieces : List (List Char)} :
    word <:+: [separator].intercalate pieces ↔ ∃ piece ∈ pieces, word <:+: piece := by
  induction pieces with
  | nil => simpa using some
  | cons piece pieces ih =>
    cases pieces with
    | nil => simp
    | cons next pieces =>
      rw [List.intercalate_cons_cons, List.append_assoc, List.singleton_append,
        infix_append_cons none, ih]
      simp only [List.exists_mem_cons_iff]

/-- No piece of a text that is cut at a separator holds it. -/
theorem not_mem_of_mem_splitOn {text piece : List Char} (mem : piece ∈ text.splitOn separator) :
    separator ∉ piece := by
  induction text generalizing piece with
  | nil =>
    obtain rfl := List.mem_singleton.1 mem
    exact List.not_mem_nil
  | cons c text ih =>
    obtain ⟨first, others, split⟩ := List.exists_cons_of_ne_nil (List.splitOn_ne_nil separator text)
    rw [List.splitOn, List.splitOnP_cons_eq_if_modifyHead, ← List.splitOn, split] at mem
    split at mem
    · rcases List.mem_cons.1 mem with rfl | mem
      · exact List.not_mem_nil
      · exact ih (split ▸ mem)
    · next other =>
      rcases List.mem_cons.1 mem with rfl | mem
      · rw [List.mem_cons, not_or]
        exact ⟨fun same => other (beq_iff_eq.2 same.symm), ih (split ▸ List.mem_cons_self)⟩
      · exact ih (split ▸ List.mem_cons_of_mem first mem)

end CodeListing.Text
