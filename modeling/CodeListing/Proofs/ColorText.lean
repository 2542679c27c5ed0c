import CodeListing.Proofs.Color
import CodeListing.Style.Color.Grammar

/-!
# Colors as they are written

`Color.named_toText` is the round trip of colors in both directions.  A color reads back from what
is written of it, and what is written of a color that was read from digits is the normal form of
these digits.

Both ways go through the grammar: the two digits that are written of a number are a share of that
value (`share_hexPair`), and a share without a sign is, in full, the two digits that are written of
its value (`Share.inFull_eq`).
-/

namespace CodeListing.Color

/-! ## Digits as they are written -/

/-- The digit that is written of a number has its value, in upper case as well. -/
theorem hexDigit_toUpper {n : Nat} (small : n < 16) : HexDigit (Text.hexDigit n).toUpper n := by
  have all : ∀ n < 16, Text.hexValue? (Text.hexDigit n).toUpper = some n := by decide
  exact hexValue?_eq_some_iff.1 (all n small)

/-- Of each value there is one digit in upper case. -/
theorem HexDigit.toUpper_eq {c : Char} {n : Nat} (digit : HexDigit c n) :
    (Text.hexDigit n).toUpper = c.toUpper := by
  have all : ∀ code < 128, ∀ n ∈ Text.hexValue? (Char.ofNat code),
      (Text.hexDigit n).toUpper = (Char.ofNat code).toUpper := by decide +kernel
  have ascii : c.toNat < 128 := Nat.lt_succ_of_le digit.toNat_le
  have value := hexValue?_eq_some_iff.2 digit
  rw [← Char.ofNat_toNat c] at value ⊢
  exact all c.toNat ascii n value

theorem HexDigit.ne_hash {c : Char} {n : Nat} (digit : HexDigit c n) : c ≠ '#' := by
  rintro rfl
  rw [hexDigit_iff] at digit
  have hash : '#'.toNat = 35 := rfl
  omega

/-- The two digits that are written of 8 bits are a share of them. -/
theorem share_hexPair (n : UInt8) : Share 2 (hexPair n) n.toNat := by
  have small := n.toNat_lt
  have high : HexDigit (Text.hexDigit (n.toNat / 16)).toUpper (n.toNat / 16) :=
    hexDigit_toUpper (by omega)
  have low : HexDigit (Text.hexDigit (n.toNat % 16)).toUpper (n.toNat % 16) :=
    hexDigit_toUpper (by omega)
  have share := Share.two high low
  rwa [Nat.div_add_mod] at share

/-- Different shares are written differently. -/
theorem hexPair_inj {m n : UInt8} (same : hexPair m = hexPair n) : m = n := by
  have first := component_two.2 (share_hexPair m)
  have second := component_two.2 (share_hexPair n)
  change component (hexPair m) = .ok m at first
  change component (hexPair n) = .ok n at second
  rw [same, second] at first
  exact (Except.ok.inj first).symm

/-! ## Shares in full -/

/-- Shares are written in full one after the other. -/
theorem inFull_append (width : Nat) (first others : List Char) :
    inFull width (first ++ others) = inFull width first ++ inFull width others := by
  unfold inFull
  split
  · rw [List.flatMap_append, List.map_append]
  · rw [List.map_append]

/-- What is written of the value of two digits is these digits in upper case. -/
theorem hexPair_of_digits {high low : Char} {i j : Nat} {n : UInt8} (isHigh : HexDigit high i)
    (isLow : HexDigit low j) (value : n.toNat = 16 * i + j) :
    hexPair n = [high.toUpper, low.toUpper] := by
  have small := isLow.lt
  have first : n.toNat / 16 = i := by omega
  have second : n.toNat % 16 = j := by omega
  rw [hexPair, first, second, List.map_cons, List.map_singleton, isHigh.toUpper_eq,
    isLow.toUpper_eq]

/-- A share without a sign is written with the digits that it was read from. -/
theorem Share.inFull_eq {width : Nat} {text : List Char} {n : UInt8}
    (share : Share width text n.toNat) (unsigned : '+' ∉ text) :
    inFull width text = hexPair n := by
  generalize value : n.toNat = k at share
  cases share with
  | one digit => exact (hexPair_of_digits digit digit value).symm
  | two high low => exact (hexPair_of_digits high low value).symm
  | signed => exact absurd List.mem_cons_self unsigned

theorem Share.inFull_append {width : Nat} {text : List Char} {n : UInt8}
    (share : Share width text n.toNat) (unsigned : '+' ∉ text) (others : List Char) :
    inFull width (text ++ others) = hexPair n ++ inFull width others := by
  rw [Color.inFull_append, share.inFull_eq unsigned]

/-- The width of the shares can be told from the number of all digits. -/
theorem normalDigits_eq {width : Nat} {digits : List Char} (narrow : width = 1 ∨ width = 2)
    (length : digits.length = 3 * width ∨ digits.length = 4 * width) :
    normalDigits digits =
      let full := inFull width digits
      if full.drop 6 = ['F', 'F'] then full.take 6 else full := by
  have same : (if digits.length ≤ 4 then 1 else 2) = width := by
    rcases narrow with rfl | rfl
    · rw [if_pos (by omega)]
    · rw [if_neg (by omega)]
  rw [normalDigits, same]

/-! ## Colors -/

/-- The share of opacity is left out exactly if it would be written `FF`. -/
theorem hexPair_eq_FF_iff {n : UInt8} : hexPair n = ['F', 'F'] ↔ ¬ n < 255 := by
  have greatest : hexPair 255 = ['F', 'F'] := by decide
  constructor
  · intro pair
    rw [hexPair_inj (pair.trans greatest.symm)]
    decide
  · intro least
    have small := n.toNat_lt
    have same : n = 255 := by
      rw [UInt8.lt_iff_toNat_lt] at least
      exact UInt8.toNat_inj.1 (by simp at least ⊢; omega)
    rw [same, greatest]

/-- What is written of a color is the normal form of the digits that it was read from. -/
theorem Shares.toText_eq {digits : List Char} {c : Color} (shares : Shares digits c)
    (unsigned : '+' ∉ digits) : c.toText = String.ofList ('#' :: normalDigits digits) := by
  obtain ⟨red, green, blue, alpha⟩ := c
  cases shares with
  | @three width r g b _ split isRed isGreen isBlue solid =>
    subst split solid
    simp only [List.mem_append, not_or] at unsigned
    have length : (r ++ (g ++ b)).length = 3 * width := by
      rw [List.length_append, List.length_append, isRed.length, isGreen.length, isBlue.length]
      omega
    have full : inFull width (r ++ (g ++ b)) = hexPair red ++ (hexPair green ++ hexPair blue) := by
      rw [isRed.inFull_append unsigned.1, isGreen.inFull_append unsigned.2.1,
        isBlue.inFull_eq unsigned.2.2]
    rw [normalDigits_eq isRed.width (.inl length), full]
    -- six digits have no fourth pair, on either side
    rfl
  | @four width r g b a _ split isRed isGreen isBlue isAlpha =>
    subst split
    simp only [List.mem_append, not_or] at unsigned
    have length : (r ++ (g ++ (b ++ a))).length = 4 * width := by
      rw [List.length_append, List.length_append, List.length_append, isRed.length,
        isGreen.length, isBlue.length, isAlpha.length]
      omega
    have full : inFull width (r ++ (g ++ (b ++ a))) =
        hexPair red ++ (hexPair green ++ (hexPair blue ++ hexPair alpha)) := by
      rw [isRed.inFull_append unsigned.1, isGreen.inFull_append unsigned.2.1,
        isBlue.inFull_append unsigned.2.2.1, isAlpha.inFull_eq unsigned.2.2.2]
    rw [normalDigits_eq isRed.width (.inr length), full]
    by_cases clear : alpha < 255
    · have fourth : hexPair alpha ≠ ['F', 'F'] := mt hexPair_eq_FF_iff.1 (not_not_intro clear)
      rw [toText, if_pos clear]
      exact congrArg (fun digits => String.ofList ('#' :: digits)) (if_neg fourth).symm
    · have fourth : hexPair alpha = ['F', 'F'] := hexPair_eq_FF_iff.2 clear
      rw [toText, if_neg clear]
      exact congrArg (fun digits => String.ofList ('#' :: digits)) (if_pos fourth).symm

/-- What is written of a color are its shares. -/
theorem exists_shares_of_toText (c : Color) :
    ∃ digits, c.toText = String.ofList ('#' :: digits) ∧ Shares digits c := by
  have red := share_hexPair c.red
  have green := share_hexPair c.green
  have blue := share_hexPair c.blue
  refine ⟨_, rfl, ?_⟩
  by_cases clear : c.alpha < 255
  · rw [if_pos clear, List.append_assoc, List.append_assoc]
    exact .four rfl red green blue (share_hexPair c.alpha)
  · have solid : c.alpha = 255 := hexPair_inj (hexPair_eq_FF_iff.2 clear)
    rw [if_neg clear, List.append_nil, List.append_assoc]
    exact .three rfl red green blue solid

/-! ## Behind the number signs -/

theorem Share.no_hash {width : Nat} {text : List Char} {k : Nat} (share : Share width text k) :
    '#' ∉ text := by
  cases share with
  | one digit => simpa using digit.ne_hash.symm
  | two high low => simpa using ⟨high.ne_hash.symm, low.ne_hash.symm⟩
  | signed digit => simpa using digit.ne_hash.symm

theorem Shares.no_hash {digits : List Char} {c : Color} (shares : Shares digits c) :
    '#' ∉ digits := by
  cases shares with
  | three split red green blue =>
    subst split
    simp only [List.mem_append, not_or]
    exact ⟨red.no_hash, green.no_hash, blue.no_hash⟩
  | four split red green blue alpha =>
    subst split
    simp only [List.mem_append, not_or]
    exact ⟨red.no_hash, green.no_hash, blue.no_hash, alpha.no_hash⟩

/-- All number signs in front are dropped, however many there are. -/
theorem body_hashes (hashes : Nat) {digits : List Char} (none : '#' ∉ digits) :
    body (String.ofList (List.replicate hashes '#' ++ digits)) = digits := by
  rw [body, String.toList_ofList]
  induction hashes with
  | zero =>
    cases digits with
    | nil => rfl
    | cons digit digits =>
      have other : digit ≠ '#' := fun same => none (same ▸ List.mem_cons_self)
      exact List.dropWhile_cons_of_neg (by simpa using other)
  | succ hashes ih => exact ih

/-- Shares are read behind any number of number signs. -/
theorem Shares.named_eq {digits : List Char} {c : Color} (shares : Shares digits c)
    (hashes : Nat) : named (String.ofList (List.replicate hashes '#' ++ digits)) = .ok c := by
  rw [named_eq_ok_iff, body_hashes hashes shares.no_hash]
  exact .shares shares

/-- Colors can be told from what is written of them. -/
theorem toText_injective : Function.Injective toText := by
  intro c d same
  obtain ⟨digits, text, shares⟩ := c.exists_shares_of_toText
  obtain ⟨digits', text', shares'⟩ := d.exists_shares_of_toText
  have first := shares.named_eq 1
  have second := shares'.named_eq 1
  change named (String.ofList ('#' :: digits)) = .ok c at first
  change named (String.ofList ('#' :: digits')) = .ok d at second
  rw [← text, same, text', second] at first
  exact (Except.ok.inj first).symm

/-- A color is written in hexadecimal digits behind a number sign. -/
theorem digit_of_mem_toText {c : Color} {d : Char} (mem : d ∈ c.toText.toList) :
    d = '#' ∨ ∃ n, HexDigit d n := by
  have pair : ∀ n : UInt8, ∀ d ∈ hexPair n, ∃ k, HexDigit d k := by
    intro n d mem
    have small := n.toNat_lt
    rw [hexPair, List.map_cons, List.map_singleton, List.mem_cons, List.mem_singleton] at mem
    rcases mem with rfl | rfl
    · exact ⟨_, hexDigit_toUpper (by omega)⟩
    · exact ⟨_, hexDigit_toUpper (by omega)⟩
  rw [toText, String.toList_ofList] at mem
  simp only [List.mem_cons, List.mem_append] at mem
  rcases mem with sign | ((red | green) | blue) | alpha
  · exact .inl sign
  · exact .inr (pair _ d red)
  · exact .inr (pair _ d green)
  · exact .inr (pair _ d blue)
  · split at alpha
    · exact .inr (pair _ d alpha)
    · cases alpha

/-- Neither name has as many letters as a color has digits. -/
theorem Spells.shares_of_length {digits : List Char} {c : Color} (spelled : Spells digits c)
    (length : digits.length ∈ [3, 4, 6, 8]) : Shares digits c := by
  cases spelled with
  | white named =>
    rw [← List.length_map (f := Char.toLower), named] at length
    exact absurd length (by decide)
  | black named =>
    rw [← List.length_map (f := Char.toLower), named] at length
    exact absurd length (by decide)
  | shares shares => exact shares

/-- **Colors read back as they are written.**  Reading what is written of a color gives that color.
As many digits as a color has, in either case and behind any number of `#`, are read, and what is
written of their color is their normal form. -/
theorem named_toText :
    (∀ c : Color, named c.toText = .ok c) ∧
      ∀ (hashes : Nat) (digits : List Char), digits.length ∈ [3, 4, 6, 8] →
        (∀ digit ∈ digits, ∃ n, HexDigit digit n) →
          ∃ c, named (String.ofList (List.replicate hashes '#' ++ digits)) = .ok c ∧
            c.toText = String.ofList ('#' :: normalDigits digits) := by
  constructor
  · intro c
    obtain ⟨digits, text, shares⟩ := c.exists_shares_of_toText
    rw [text]
    exact shares.named_eq 1
  · intro hashes digits length areDigits
    obtain ⟨unsigned, c, spelled⟩ := documented_iff.1 (.inr (.inr ⟨length, areDigits⟩))
    have shares := spelled.shares_of_length length
    exact ⟨c, shares.named_eq hashes, shares.toText_eq unsigned⟩

/-- Two number signs, digits in either case, and an opaque share of opacity. -/
theorem named_toText_opaque :
    let digits := ['0', 'a', 'F', 'f']
    digits.length ∈ [3, 4, 6, 8] ∧ (∀ digit ∈ digits, ∃ n, HexDigit digit n) ∧
      ∃ c, named "##0aFf" = .ok c ∧ c.toText = "#00AAFF" := by
  intro digits
  have length : digits.length ∈ [3, 4, 6, 8] := by decide
  have areDigits : ∀ digit ∈ digits, ∃ n, HexDigit digit n := by
    have values : digits.all (fun digit => (Text.hexValue? digit).isSome) = true := by decide
    intro digit mem
    obtain ⟨n, value⟩ := Option.isSome_iff_exists.1 (List.all_eq_true.1 values digit mem)
    exact ⟨n, hexValue?_eq_some_iff.1 value⟩
  obtain ⟨c, read, written⟩ := named_toText.2 2 digits length areDigits
  have normal : normalDigits digits = ['0', '0', 'A', 'A', 'F', 'F'] := by decide
  rw [normal] at written
  exact ⟨length, areDigits, c, read, written⟩

end CodeListing.Color
