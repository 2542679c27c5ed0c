import CodeListing.Text.Utf8

/-!
# Cutting a text by its bytes

A slice of a text is what stands between two of its offsets (`slice?_eq_some_iff`), so whatever puts
a text together can cut it again where it was joined (`slice?_append`).  A character of ASCII is a
byte of its own, and no byte of any other character is one (`toNat_of_mem_utf8EncodeChar`).
-/

namespace CodeListing.Text

/-! ## Offsets -/

@[simp]
theorem byteLength_nil : byteLength [] = 0 := rfl

@[simp]
theorem byteLength_cons (c : Char) (cs : List Char) :
    byteLength (c :: cs) = c.utf8Size + byteLength cs := rfl

@[simp]
theorem byteLength_append (a b : List Char) :
    byteLength (a ++ b) = byteLength a + byteLength b := by
  induction a with
  | nil => simp
  | cons c a ih => rw [List.cons_append, byteLength_cons, byteLength_cons, ih, Nat.add_assoc]

theorem eq_nil_of_byteLength {cs : List Char} (empty : byteLength cs = 0) : cs = [] := by
  cases cs with
  | nil => rfl
  | cons c cs =>
    have := c.utf8Size_pos
    rw [byteLength_cons] at empty
    omega

theorem dropBytes?_append (a b : List Char) : dropBytes? (byteLength a) (a ++ b) = some b := by
  induction a with
  | nil => cases b <;> rfl
  | cons c a ih =>
    have positive := c.utf8Size_pos
    obtain ⟨n, size⟩ : ∃ n, byteLength (c :: a) = n + 1 :=
      ⟨byteLength (c :: a) - 1, by rw [byteLength_cons]; omega⟩
    rw [byteLength_cons] at size
    have left : n + 1 - c.utf8Size = byteLength a := by omega
    rw [byteLength_cons, size, List.cons_append, dropBytes?, if_pos (by omega), left, ih]

theorem takeBytes?_append (a b : List Char) : takeBytes? (byteLength a) (a ++ b) = some a := by
  induction a with
  | nil => cases b <;> rfl
  | cons c a ih =>
    have positive := c.utf8Size_pos
    obtain ⟨n, size⟩ : ∃ n, byteLength (c :: a) = n + 1 :=
      ⟨byteLength (c :: a) - 1, by rw [byteLength_cons]; omega⟩
    rw [byteLength_cons] at size
    have left : n + 1 - c.utf8Size = byteLength a := by omega
    rw [byteLength_cons, size, List.cons_append, takeBytes?, if_pos (by omega), left, ih,
      Option.map_some]

/-- What stands between two texts is cut out at the bytes where it starts and stops. -/
theorem slice?_append (a b c : List Char) :
    slice? (a ++ (b ++ c)) (byteLength a) (byteLength a + byteLength b) = some b := by
  rw [slice?, if_pos (Nat.le_add_right _ _), dropBytes?_append, Option.bind_some,
    Nat.add_sub_cancel_left, takeBytes?_append]

theorem eq_append_of_dropBytes? {bytes : Nat} {cs behind : List Char}
    (cut : dropBytes? bytes cs = some behind) :
    ∃ before, cs = before ++ behind ∧ byteLength before = bytes := by
  fun_induction dropBytes? bytes cs with
  | case1 cs => exact ⟨[], Option.some.inj cut, rfl⟩
  | case2 => cases cut
  | case3 n c cs fits ih =>
    obtain ⟨before, rfl, size⟩ := ih cut
    exact ⟨c :: before, rfl, by rw [byteLength_cons]; omega⟩
  | case4 => cases cut

theorem eq_append_of_takeBytes? {bytes : Nat} {cs front : List Char}
    (cut : takeBytes? bytes cs = some front) :
    ∃ behind, cs = front ++ behind ∧ byteLength front = bytes := by
  fun_induction takeBytes? bytes cs generalizing front with
  | case1 cs =>
    obtain rfl := Option.some.inj cut
    exact ⟨cs, rfl, rfl⟩
  | case2 => cases cut
  | case3 n c cs fits ih =>
    obtain ⟨front, taken, rfl⟩ := Option.map_eq_some_iff.1 cut
    obtain ⟨behind, rfl, size⟩ := ih taken
    exact ⟨behind, rfl, by rw [byteLength_cons]; omega⟩
  | case4 => cases cut

/-- A slice is what stands in the text between its two ends. -/
theorem slice?_eq_some_iff {cs inside : List Char} {start stop : Nat} :
    slice? cs start stop = some inside ↔
      ∃ before behind, cs = before ++ (inside ++ behind) ∧ start = byteLength before ∧
        stop = byteLength (before ++ inside) := by
  constructor
  · intro cut
    rw [slice?, Option.ite_none_right_eq_some, Option.bind_eq_some_iff] at cut
    obtain ⟨ordered, rest, dropped, taken⟩ := cut
    obtain ⟨before, rfl, size⟩ := eq_append_of_dropBytes? dropped
    obtain ⟨behind, rfl, size'⟩ := eq_append_of_takeBytes? taken
    exact ⟨before, behind, rfl, size.symm, by rw [byteLength_append]; omega⟩
  · rintro ⟨before, behind, rfl, rfl, rfl⟩
    rw [byteLength_append, slice?_append]

/-- A character of ASCII has one byte. -/
theorem byteLength_of_ascii {cs : List Char} (ascii : ∀ c ∈ cs, c.toNat ≤ 127) :
    byteLength cs = cs.length := by
  induction cs with
  | nil => rfl
  | cons c cs ih =>
    have small : c.toNat ≤ 127 := ascii c List.mem_cons_self
    have size : c.utf8Size = 1 := Char.utf8Size_eq_one_iff.2 (UInt32.le_iff_toNat_le.2 small)
    rw [byteLength_cons, size, ih fun c mem => ascii c (List.mem_cons_of_mem _ mem),
      List.length_cons, Nat.add_comm]

/-- In ASCII text the bytes are counted as the characters are. -/
theorem slice?_of_ascii {before inside behind : List Char}
    (ascii : ∀ c ∈ before ++ (inside ++ behind), c.toNat ≤ 127) :
    slice? (before ++ (inside ++ behind)) before.length (before.length + inside.length) =
      some inside := by
  simp only [List.forall_mem_append] at ascii
  obtain ⟨first, second, -⟩ := ascii
  rw [← byteLength_of_ascii first, ← byteLength_of_ascii second, slice?_append]

theorem isBoundary_zero (cs : List Char) : IsBoundary cs 0 := ⟨[], cs, rfl, rfl⟩

theorem isBoundary_byteLength (cs : List Char) : IsBoundary cs (byteLength cs) :=
  ⟨cs, [], (List.append_nil cs).symm, rfl⟩

/-- A boundary that is not in front of a text is a boundary of what is behind it. -/
theorem IsBoundary.behind {before behind : List Char} {stop : Nat}
    (boundary : IsBoundary (before ++ behind) stop) (ordered : byteLength before ≤ stop) :
    ∃ inside rest, behind = inside ++ rest ∧ stop = byteLength before + byteLength inside := by
  obtain ⟨before', rest, same, size⟩ := boundary
  rcases List.append_eq_append_iff.1 same with ⟨inside, rfl, rfl⟩ | ⟨excess, rfl, rfl⟩
  · exact ⟨inside, rest, rfl, by rw [← size, byteLength_append]⟩
  · rw [byteLength_append] at ordered
    have nothing : byteLength excess = 0 := by omega
    obtain rfl := eq_nil_of_byteLength nothing
    exact ⟨[], behind, rfl, by simp [size]⟩

/-! ## Bytes -/

theorem bytes_cons (c : Char) (cs : List Char) :
    bytes (c :: cs) = String.utf8EncodeChar c ++ bytes cs := List.flatMap_cons

theorem utf8EncodeChar_of_ascii {c : Char} (ascii : c.toNat ≤ 127) :
    String.utf8EncodeChar c = [c.toUInt8] := by
  apply String.utf8EncodeChar_eq_singleton
  rw [Char.utf8Size_eq_one_iff, UInt32.le_iff_toNat_le]
  exact ascii

/-- A byte of a character is the character itself, or lies beyond ASCII. -/
theorem toNat_of_mem_utf8EncodeChar {c : Char} {byte : UInt8}
    (mem : byte ∈ String.utf8EncodeChar c) : byte.toNat = c.toNat ∨ 128 ≤ byte.toNat := by
  have code : c.val.toNat = c.toNat := rfl
  unfold String.utf8EncodeChar at mem
  dsimp only at mem
  -- One byte, which is the character, or two to four, each with its highest bit set.
  repeat' split at mem
  all_goals
    simp only [List.mem_cons, List.not_mem_nil, or_false, ← UInt8.toNat_inj,
      UInt8.toNat_ofNat'] at mem
    omega

/-- Decoding the bytes of a text gives the text back. -/
theorem fromUTF8?_bytes (text : List Char) :
    String.fromUTF8? (bytes text).toByteArray = some (String.ofList text) := by
  have valid : (bytes text).toByteArray.IsValidUTF8 := .intro text rfl
  rw [String.fromUTF8?, dif_pos valid, Option.some_inj, ← String.toByteArray_inj,
    String.toByteArray_ofList]
  rfl

end CodeListing.Text
