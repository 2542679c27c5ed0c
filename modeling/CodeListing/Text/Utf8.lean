/-!
# Offsets in the UTF-8 form of a text

Spans of a line are given in bytes of its UTF-8 form, where a character has one to four.  `slice?`
cuts such a span out of the text; it refuses an offset that falls inside a character or lies beyond
the end.
-/

namespace CodeListing.Text

/-- The bytes of a text. -/
def bytes (cs : List Char) : List UInt8 := cs.flatMap String.utf8EncodeChar

/-- The number of bytes of a text. -/
def byteLength (cs : List Char) : Nat := cs.foldr (fun c n => c.utf8Size + n) 0

/-- Whether a text can be cut at this byte: no character reaches over it. -/
def IsBoundary (cs : List Char) (bytes : Nat) : Prop :=
  ∃ before behind, cs = before ++ behind ∧ byteLength before = bytes

theorem isBoundary_nil_succ (n : Nat) : ¬ IsBoundary [] (n + 1) := by
  rintro ⟨before, behind, same, size⟩
  obtain ⟨rfl, -⟩ := List.append_eq_nil_iff.1 same.symm
  cases size

theorem isBoundary_cons_succ (c : Char) (cs : List Char) (n : Nat) :
    IsBoundary (c :: cs) (n + 1) ↔ c.utf8Size ≤ n + 1 ∧ IsBoundary cs (n + 1 - c.utf8Size) := by
  constructor
  · rintro ⟨_ | ⟨d, before⟩, behind, same, size⟩
    · cases size
    · obtain ⟨rfl, rfl⟩ := List.cons.inj same
      have sum : c.utf8Size + byteLength before = n + 1 := size
      exact ⟨by omega, before, behind, rfl, by omega⟩
  · rintro ⟨fits, before, behind, rfl, size⟩
    refine ⟨c :: before, behind, rfl, ?_⟩
    change c.utf8Size + byteLength before = n + 1
    omega

instance decidableIsBoundary : (cs : List Char) → (bytes : Nat) → Decidable (IsBoundary cs bytes)
  | cs, 0 => isTrue ⟨[], cs, rfl, rfl⟩
  | [], n + 1 => isFalse (isBoundary_nil_succ n)
  | c :: cs, n + 1 =>
    have := decidableIsBoundary cs (n + 1 - c.utf8Size)
    decidable_of_iff' _ (isBoundary_cons_succ c cs n)

/-- The text after its first `bytes` bytes, if a character ends there. -/
def dropBytes? : (bytes : Nat) → List Char → Option (List Char)
  | 0, cs => some cs
  | _ + 1, [] => none
  | n + 1, c :: cs => if c.utf8Size ≤ n + 1 then dropBytes? (n + 1 - c.utf8Size) cs else none

/-- The first `bytes` bytes of the text, if a character ends there. -/
def takeBytes? : (bytes : Nat) → List Char → Option (List Char)
  | 0, _ => some []
  | _ + 1, [] => none
  | n + 1, c :: cs =>
    if c.utf8Size ≤ n + 1 then (takeBytes? (n + 1 - c.utf8Size) cs).map (c :: ·) else none

/-- The characters from byte `start` up to byte `stop`, if both are ends of characters in this
order. -/
def slice? (cs : List Char) (start stop : Nat) : Option (List Char) :=
  if start ≤ stop then (dropBytes? start cs).bind (takeBytes? (stop - start)) else none

end CodeListing.Text
