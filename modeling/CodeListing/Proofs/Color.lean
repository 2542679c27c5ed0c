import CodeListing.Error
import CodeListing.Proofs.Utf8
import CodeListing.Style.Color.Grammar

/-!
# Which texts are colors

`Color.named_accepts` compares the reading of a color with its grammar, and the grammar with the one
that the documentation of colors gives.  They part where a share has two characters: a sign is no
digit, but a number may have one.

The way leads from digits to shares, from shares to lists of them, and from there to texts.  Shares
are compared as numbers, for which one has to know that they fit into 8 bits; this is also why the
reading by byte offsets (`Color.ofSpans?`) has no step that fails.
-/

namespace CodeListing

/-- A reading in two steps succeeds exactly if both do. -/
theorem bind_eq_ok_iff {ε α β : Type} {first : Except ε α} {next : α → Except ε β} {b : β} :
    (first >>= next) = .ok b ↔ ∃ a, first = .ok a ∧ next a = .ok b := by
  cases first with
  | error e => exact iff_of_false nofun nofun
  | ok a => exact ⟨fun same => ⟨a, rfl, same⟩, fun ⟨_, same, result⟩ => by cases same; exact result⟩

/-- The fault of a reading in two steps is that of the first step that has one. -/
theorem bind_eq_error_iff {ε α β : Type} {first : Except ε α} {next : α → Except ε β} {e : ε} :
    (first >>= next) = .error e ↔ first = .error e ∨ ∃ a, first = .ok a ∧ next a = .error e := by
  cases first with
  | error e' => simp [bind, Except.bind]
  | ok a => simp [bind, Except.bind]

namespace Color

/-! ## Digits -/

/-- The hexadecimal digits by their code points. -/
theorem hexDigit_iff {c : Char} {n : Nat} :
    HexDigit c n ↔ 48 ≤ c.toNat ∧ c.toNat ≤ 57 ∧ n = c.toNat - 48 ∨
      97 ≤ c.toNat ∧ c.toNat ≤ 102 ∧ n = c.toNat - 97 + 10 ∨
        65 ≤ c.toNat ∧ c.toNat ≤ 70 ∧ n = c.toNat - 65 + 10 := by
  constructor
  · rintro (⟨ge, le⟩ | ⟨ge, le⟩ | ⟨ge, le⟩)
    · exact .inl ⟨UInt32.le_iff_toNat_le.1 ge, UInt32.le_iff_toNat_le.1 le, rfl⟩
    · exact .inr (.inl ⟨UInt32.le_iff_toNat_le.1 ge, UInt32.le_iff_toNat_le.1 le, rfl⟩)
    · exact .inr (.inr ⟨UInt32.le_iff_toNat_le.1 ge, UInt32.le_iff_toNat_le.1 le, rfl⟩)
  · rintro (⟨ge, le, rfl⟩ | ⟨ge, le, rfl⟩ | ⟨ge, le, rfl⟩)
    · exact .decimal (UInt32.le_iff_toNat_le.2 ge) (UInt32.le_iff_toNat_le.2 le)
    · exact .lower (UInt32.le_iff_toNat_le.2 ge) (UInt32.le_iff_toNat_le.2 le)
    · exact .upper (UInt32.le_iff_toNat_le.2 ge) (UInt32.le_iff_toNat_le.2 le)

/-- The value that is read of a character is the one that it has as a digit. -/
theorem hexValue?_eq_some_iff {c : Char} {n : Nat} :
    Text.hexValue? c = some n ↔ HexDigit c n := by
  have decimal : c.isDigit = true ↔ 48 ≤ c.toNat ∧ c.toNat ≤ 57 := Char.isDigit_iff_toNat
  have letter : ('a' ≤ c.toLower ∧ c.toLower ≤ 'f') ↔
      97 ≤ c.toLower.toNat ∧ c.toLower.toNat ≤ 102 :=
    and_congr UInt32.le_iff_toNat_le UInt32.le_iff_toNat_le
  have lower := Text.toNat_toLower c
  have zero : '0'.toNat = 48 := rfl
  have a : 'a'.toNat = 97 := rfl
  rw [hexDigit_iff, Text.hexValue?]
  simp only [decimal, letter, zero, a]
  split
  · rw [Option.some_inj]
    omega
  · split
    · rw [Option.some_inj]
      split at lower <;> omega
    · simp only [reduceCtorEq, false_iff]
      split at lower <;> omega

theorem HexDigit.lt {c : Char} {n : Nat} (digit : HexDigit c n) : n < 16 := by
  rw [hexDigit_iff] at digit
  omega

theorem HexDigit.toNat_le {c : Char} {n : Nat} (digit : HexDigit c n) : c.toNat ≤ 127 := by
  rw [hexDigit_iff] at digit
  omega

theorem HexDigit.ne_plus {c : Char} {n : Nat} (digit : HexDigit c n) : c ≠ '+' := by
  rintro rfl
  rw [hexDigit_iff] at digit
  have plus : '+'.toNat = 43 := rfl
  omega

theorem hexNumber?_one (digit : Char) : Text.hexNumber? [digit] = Text.hexValue? digit := by
  simp [Text.hexNumber?]

/-- Two digits make a number of 8 bits, the first one the higher. -/
theorem hexNumber?_two {high low : Char} {k : Nat} :
    Text.hexNumber? [high, low] = some k ↔
      ∃ m n, HexDigit high m ∧ HexDigit low n ∧ k = 16 * m + n := by
  simp only [← hexValue?_eq_some_iff]
  cases first : Text.hexValue? high <;> cases second : Text.hexValue? low <;>
    simp [Text.hexNumber?, first, second, Nat.mul_comm, eq_comm]

/-! ## Shares -/

theorem share_one_iff {text : List Char} {k : Nat} :
    Share 1 text k ↔ ∃ digit n, text = [digit] ∧ HexDigit digit n ∧ k = 16 * n + n := by
  constructor
  · intro share
    cases share with
    | one digit => exact ⟨_, _, rfl, digit, rfl⟩
  · rintro ⟨digit, n, rfl, isDigit, rfl⟩
    exact .one isDigit

/-- A share of two characters is made of two digits, or of a plus sign and one. -/
theorem share_two_iff {text : List Char} {k : Nat} :
    Share 2 text k ↔
      (∃ high low m n, text = [high, low] ∧ HexDigit high m ∧ HexDigit low n ∧ k = 16 * m + n) ∨
        ∃ digit, text = ['+', digit] ∧ HexDigit digit k := by
  constructor
  · intro share
    cases share with
    | two high low => exact .inl ⟨_, _, _, _, rfl, high, low, rfl⟩
    | signed digit => exact .inr ⟨_, rfl, digit⟩
  · rintro (⟨high, low, m, n, rfl, isHigh, isLow, rfl⟩ | ⟨digit, rfl, isDigit⟩)
    · exact .two isHigh isLow
    · exact .signed isDigit

/-- A number that fits into 8 bits does not change there. -/
theorem ok_toUInt8_iff {number : Option Nat} {fault : ColorFault} {n : UInt8}
    (small : ∀ k, number = some k → k < UInt8.size) :
    (match number with
      | some k => Except.ok k.toUInt8
      | none => .error fault) = .ok n ↔ number = some n.toNat := by
  cases number with
  | none => simp
  | some k =>
    have fits : k.toUInt8.toNat = k := Nat.mod_eq_of_lt (small k rfl)
    simp only [Except.ok.injEq, Option.some.injEq, ← UInt8.toNat_inj, fits]

theorem component_plus (rest : List Char) :
    component ('+' :: rest) =
      match Text.hexNumber? rest with
      | some k => .ok k.toUInt8
      | none => .error (.component (String.ofList ('+' :: rest))) := rfl

theorem component_of_ne_plus {c : Char} (other : c ≠ '+') (rest : List Char) :
    component (c :: rest) =
      match Text.hexNumber? (c :: rest) with
      | some k => .ok k.toUInt8
      | none => .error (.component (String.ofList (c :: rest))) := by
  unfold component
  split
  · next same => exact absurd (List.cons.inj same).1 other
  · rfl

theorem ok_of_digit {digit : Char} {fault : ColorFault} {n : UInt8} :
    (match Text.hexNumber? [digit] with
      | some k => Except.ok k.toUInt8
      | none => .error fault) = .ok n ↔ HexDigit digit n.toNat := by
  rw [hexNumber?_one, ok_toUInt8_iff, hexValue?_eq_some_iff]
  intro k read
  exact Nat.lt_trans (hexValue?_eq_some_iff.1 read).lt (by decide)

/-- A share of a single digit is read as the digit itself; it is widened later. -/
theorem component_one {digit : Char} {n : UInt8} :
    component [digit] = .ok n ↔ HexDigit digit n.toNat := by
  by_cases plus : digit = '+'
  · subst plus
    exact iff_of_false nofun fun digit => digit.ne_plus rfl
  · rw [component_of_ne_plus plus, ok_of_digit]

/-- Reading two characters takes just the shares of that width, signed ones included. -/
theorem component_two {c digit : Char} {n : UInt8} :
    component [c, digit] = .ok n ↔ Share 2 [c, digit] n.toNat := by
  rw [share_two_iff]
  by_cases plus : c = '+'
  · subst plus
    rw [component_plus, ok_of_digit]
    constructor
    · exact fun isDigit => .inr ⟨digit, rfl, isDigit⟩
    · rintro (⟨high, low, m, n, same, isHigh, -⟩ | ⟨low, same, isDigit⟩)
      · exact absurd (List.cons.inj same).1.symm isHigh.ne_plus
      · cases same
        exact isDigit
  · rw [component_of_ne_plus plus, ok_toUInt8_iff, hexNumber?_two]
    · constructor
      · rintro ⟨m, n, high, low, value⟩
        exact .inl ⟨c, digit, m, n, rfl, high, low, value⟩
      · rintro (⟨high, low, m, n, same, isHigh, isLow, value⟩ | ⟨low, same, -⟩)
        · cases same
          exact ⟨m, n, isHigh, isLow, value⟩
        · exact absurd (List.cons.inj same).1 plus
    · intro k read
      obtain ⟨m, n, high, low, rfl⟩ := hexNumber?_two.1 read
      have small := high.lt
      have small' := low.lt
      have size : UInt8.size = 256 := rfl
      omega

theorem toNat_mul_17 {n : UInt8} (small : n.toNat < 16) :
    (n * 17).toNat = 16 * n.toNat + n.toNat := by
  rw [UInt8.toNat_mul]
  exact (Nat.mod_eq_of_lt (by simp; omega)).trans (by simp; omega)

/-- A single digit that is widened is a share of one character. -/
theorem shade_eq_ok_iff {digit : Char} {n : UInt8} :
    shade digit = .ok n ↔ Share 1 [digit] n.toNat := by
  rw [share_one_iff, shade]
  constructor
  · intro read
    cases value : component [digit] with
    | error fault =>
      rw [value] at read
      cases read
    | ok m =>
      rw [value] at read
      cases read
      have isDigit := component_one.1 value
      exact ⟨digit, m.toNat, rfl, isDigit, toNat_mul_17 isDigit.lt⟩
  · rintro ⟨c, m, same, isDigit, value⟩
    cases same
    have small := isDigit.lt
    have fits : m.toUInt8.toNat = m := Nat.mod_eq_of_lt (by omega)
    rw [← fits] at isDigit small
    rw [component_one.2 isDigit]
    refine congrArg Except.ok (UInt8.toNat_inj.1 ?_)
    rw [toNat_mul_17 small, fits, value]

/-! ## Shares one after the other -/

theorem Share.length {width : Nat} {text : List Char} {k : Nat} (share : Share width text k) :
    text.length = width := by
  cases share <;> rfl

theorem Share.width {width : Nat} {text : List Char} {k : Nat} (share : Share width text k) :
    width = 1 ∨ width = 2 := by
  cases share with
  | one => exact .inl rfl
  | two => exact .inr rfl
  | signed => exact .inr rfl

/-- The characters of a share are ASCII, so that counting them is counting bytes. -/
theorem Share.ascii {width : Nat} {text : List Char} {k : Nat} (share : Share width text k) :
    ∀ c ∈ text, c.toNat ≤ 127 := by
  cases share with
  | one digit => simpa using digit.toNat_le
  | two high low => simpa using ⟨high.toNat_le, low.toNat_le⟩
  | signed digit => simpa using digit.toNat_le

theorem Share.one_text {text : List Char} {k : Nat} (share : Share 1 text k) :
    ∃ digit, text = [digit] := by
  obtain ⟨digit, -, rfl, -⟩ := share_one_iff.1 share
  exact ⟨digit, rfl⟩

theorem Share.two_text {text : List Char} {k : Nat} (share : Share 2 text k) :
    ∃ c digit, text = [c, digit] := by
  rcases share_two_iff.1 share with ⟨c, digit, -, -, rfl, -⟩ | ⟨digit, rfl, -⟩
  · exact ⟨c, digit, rfl⟩
  · exact ⟨'+', digit, rfl⟩

/-- What is read of digits, by their number, is made of shares of one width. -/
theorem shares_of_ofDigits {digits : List Char} {c : Color} (read : ofDigits digits = .ok c) :
    Shares digits c := by
  unfold ofDigits at read
  split at read
  · simp only [bind_eq_ok_iff, shade_eq_ok_iff] at read
    obtain ⟨r, red, g, green, b, blue, same⟩ := read
    cases same
    exact .three rfl red green blue rfl
  · simp only [bind_eq_ok_iff, shade_eq_ok_iff] at read
    obtain ⟨r, red, g, green, b, blue, a, alpha, same⟩ := read
    cases same
    exact .four rfl red green blue alpha
  · simp only [bind_eq_ok_iff, component_two] at read
    obtain ⟨r, red, g, green, b, blue, same⟩ := read
    cases same
    exact .three rfl red green blue rfl
  · simp only [bind_eq_ok_iff, component_two] at read
    obtain ⟨r, red, g, green, b, blue, a, alpha, same⟩ := read
    cases same
    exact .four rfl red green blue alpha
  · cases read

/-- Shares of one width are told apart again by the number of all characters. -/
theorem ofDigits_of_shares {digits : List Char} {c : Color} (shares : Shares digits c) :
    ofDigits digits = .ok c := by
  cases shares with
  | three split red green blue alpha =>
    have solid : c = ⟨c.red, c.green, c.blue, 255⟩ := by rw [← alpha]
    subst split
    rcases red.width with rfl | rfl
    · obtain ⟨r, rfl⟩ := red.one_text
      obtain ⟨g, rfl⟩ := green.one_text
      obtain ⟨b, rfl⟩ := blue.one_text
      simp only [List.cons_append, List.nil_append, ofDigits, bind_eq_ok_iff, shade_eq_ok_iff]
      exact ⟨_, red, _, green, _, blue, congrArg Except.ok solid.symm⟩
    · obtain ⟨r, r', rfl⟩ := red.two_text
      obtain ⟨g, g', rfl⟩ := green.two_text
      obtain ⟨b, b', rfl⟩ := blue.two_text
      simp only [List.cons_append, List.nil_append, ofDigits, bind_eq_ok_iff, component_two]
      exact ⟨_, red, _, green, _, blue, congrArg Except.ok solid.symm⟩
  | four split red green blue alpha =>
    subst split
    rcases red.width with rfl | rfl
    · obtain ⟨r, rfl⟩ := red.one_text
      obtain ⟨g, rfl⟩ := green.one_text
      obtain ⟨b, rfl⟩ := blue.one_text
      obtain ⟨a, rfl⟩ := alpha.one_text
      simp only [List.cons_append, List.nil_append, ofDigits, bind_eq_ok_iff, shade_eq_ok_iff]
      exact ⟨_, red, _, green, _, blue, _, alpha, rfl⟩
    · obtain ⟨r, r', rfl⟩ := red.two_text
      obtain ⟨g, g', rfl⟩ := green.two_text
      obtain ⟨b, b', rfl⟩ := blue.two_text
      obtain ⟨a, a', rfl⟩ := alpha.two_text
      simp only [List.cons_append, List.nil_append, ofDigits, bind_eq_ok_iff, component_two]
      exact ⟨_, red, _, green, _, blue, _, alpha, rfl⟩

/-! ## Names -/

/-- The name is compared in ASCII case, which is that of the grammar. -/
theorem is_white_iff {digits : List Char} :
    Text.equalsIgnoringCase digits "white".toList = true ↔
      digits.map Char.toLower = "white".toList :=
  Text.equalsIgnoringCase_iff (by decide)

theorem is_black_iff {digits : List Char} :
    Text.equalsIgnoringCase digits "black".toList = true ↔
      digits.map Char.toLower = "black".toList :=
  Text.equalsIgnoringCase_iff (by decide)

theorem any_beyond_ascii {digits : List Char} :
    digits.any (127 < ·.toNat) = true ↔ ¬ ∀ c ∈ digits, c.toNat ≤ 127 := by
  simp

/-- Shares leave no room for the fault of a character beyond ASCII. -/
theorem Shares.ascii {body : List Char} {c : Color} (shares : Shares body c) :
    ∀ x ∈ body, x.toNat ≤ 127 := by
  cases shares with
  | three split red green blue =>
    subst split
    simp only [List.forall_mem_append]
    exact ⟨red.ascii, green.ascii, blue.ascii⟩
  | four split red green blue alpha =>
    subst split
    simp only [List.forall_mem_append]
    exact ⟨red.ascii, green.ascii, blue.ascii, alpha.ascii⟩

theorem Shares.length {body : List Char} {c : Color} (shares : Shares body c) :
    ∃ width, (width = 1 ∨ width = 2) ∧
      (body.length = 3 * width ∨ body.length = 4 * width) := by
  cases shares with
  | @three width _ _ _ _ split red green blue =>
    refine ⟨width, red.width, .inl ?_⟩
    rw [split, List.length_append, List.length_append, red.length, green.length, blue.length]
    omega
  | @four width _ _ _ _ _ split red green blue alpha =>
    refine ⟨width, red.width, .inr ?_⟩
    rw [split, List.length_append, List.length_append, List.length_append, red.length,
      green.length, blue.length, alpha.length]
    omega

/-- Both names have five letters, which is no length that shares can have. -/
theorem Shares.not_named {body name : List Char} {c : Color} (shares : Shares body c)
    (five : name.length = 5) : body.map Char.toLower ≠ name := by
  rintro rfl
  rw [List.length_map] at five
  obtain ⟨width, narrow, size⟩ := shares.length
  omega

/-! ## The color of a text -/

/-- The names are looked for first and then the shares, which takes nothing from the grammar. -/
theorem ofText_eq_ok_iff {text : String} {c : Color} :
    ofText text = .ok c ↔ Spells (body text) c := by
  simp only [ofText]
  constructor
  · intro read
    split at read
    · next named =>
      cases read
      exact .white (is_white_iff.1 named)
    · split at read
      · next named =>
        cases read
        exact .black (is_black_iff.1 named)
      · split at read
        · cases read
        · exact .shares (shares_of_ofDigits read)
  · intro spelled
    cases spelled with
    | white named => rw [if_pos (is_white_iff.2 named)]
    | black named =>
      -- `white` is asked for first
      have other : ¬ Text.equalsIgnoringCase (body text) "white".toList = true := by
        rw [is_white_iff, named]
        decide
      rw [if_neg other, if_pos (is_black_iff.2 named)]
    | shares shares =>
      rw [if_neg (mt is_white_iff.1 (shares.not_named rfl)),
        if_neg (mt is_black_iff.1 (shares.not_named rfl)),
        if_neg (fun beyond => any_beyond_ascii.1 beyond shares.ascii), ofDigits_of_shares shares]

/-- The error that is made of a fault does not change what is read. -/
theorem named_eq_ok_iff {text : String} {c : Color} :
    named text = .ok c ↔ Spells (body text) c := by
  rw [← ofText_eq_ok_iff, named]
  cases ofText text with
  | ok d => rw [Except.ok.injEq, Except.ok.injEq]
  | error fault => exact iff_of_false nofun nofun

/-- What spells no color is an error that repeats the whole text. -/
theorem not_spells_iff {text : String} :
    (¬ ∃ c, Spells (body text) c) ↔
      ∃ fault, ofText text = .error fault ∧ named text = .error (.color text fault.reason) := by
  rw [named]
  cases read : ofText text with
  | ok c => exact iff_of_false (not_not_intro ⟨c, ofText_eq_ok_iff.1 read⟩) nofun
  | error fault =>
    refine iff_of_true ?_ ⟨fault, rfl, rfl⟩
    rintro ⟨c, spelled⟩
    rw [ofText_eq_ok_iff.2 spelled] at read
    cases read

/-! ## Colors without signs -/

theorem exists_toNat {k : Nat} (small : k < 256) : ∃ n : UInt8, n.toNat = k :=
  ⟨k.toUInt8, Nat.mod_eq_of_lt small⟩

/-- Digits that are as many as a share has characters are a share. -/
theorem exists_share {width : Nat} {text : List Char} (narrow : width = 1 ∨ width = 2)
    (length : text.length = width) (digits : ∀ c ∈ text, ∃ n, HexDigit c n) :
    ∃ k : UInt8, Share width text k.toNat := by
  rcases narrow with rfl | rfl
  · obtain ⟨digit, rfl⟩ := List.length_eq_one_iff.1 length
    obtain ⟨n, isDigit⟩ := digits digit (List.mem_singleton_self digit)
    have small := isDigit.lt
    obtain ⟨k, value⟩ := exists_toNat (k := 16 * n + n) (by omega)
    exact ⟨k, value ▸ .one isDigit⟩
  · obtain ⟨high, low, rfl⟩ : ∃ high low, text = [high, low] :=
      match text, length with
      | [high, low], _ => ⟨high, low, rfl⟩
    obtain ⟨m, isHigh⟩ := digits high (by simp)
    obtain ⟨n, isLow⟩ := digits low (by simp)
    have small := isHigh.lt
    have small' := isLow.lt
    obtain ⟨k, value⟩ := exists_toNat (k := 16 * m + n) (by omega)
    exact ⟨k, value ▸ .two isHigh isLow⟩

/-- The first share of some digits, and the digits behind it. -/
theorem exists_first_share {width rest : Nat} {text : List Char} (narrow : width = 1 ∨ width = 2)
    (length : text.length = width + rest) (digits : ∀ c ∈ text, ∃ n, HexDigit c n) :
    ∃ (first others : List Char) (k : UInt8), text = first ++ others ∧
      Share width first k.toNat ∧ others.length = rest ∧ ∀ c ∈ others, ∃ n, HexDigit c n := by
  have taken : (text.take width).length = width := by
    rw [List.length_take]
    omega
  obtain ⟨k, share⟩ := exists_share narrow taken fun c mem => digits c (List.mem_of_mem_take mem)
  refine ⟨text.take width, text.drop width, k, (List.take_append_drop width text).symm, share, ?_,
    fun c mem => digits c (List.mem_of_mem_drop mem)⟩
  rw [List.length_drop]
  omega

/-- Digits of a fitting number can be cut into shares, without anything left over. -/
theorem exists_shares {width : Nat} {body : List Char} (narrow : width = 1 ∨ width = 2)
    (length : body.length = 3 * width ∨ body.length = 4 * width)
    (digits : ∀ c ∈ body, ∃ n, HexDigit c n) : ∃ c, Shares body c := by
  rcases length with length | length
  · obtain ⟨r, _, red, rfl, isRed, length, digits⟩ :=
      @exists_first_share width (2 * width) _ narrow (by omega) digits
    obtain ⟨g, b, green, rfl, isGreen, length, digits⟩ :=
      @exists_first_share width width _ narrow (by omega) digits
    obtain ⟨blue, isBlue⟩ := exists_share narrow length digits
    exact ⟨⟨red, green, blue, 255⟩, .three rfl isRed isGreen isBlue rfl⟩
  · obtain ⟨r, _, red, rfl, isRed, length, digits⟩ :=
      @exists_first_share width (3 * width) _ narrow (by omega) digits
    obtain ⟨g, _, green, rfl, isGreen, length, digits⟩ :=
      @exists_first_share width (2 * width) _ narrow (by omega) digits
    obtain ⟨b, a, blue, rfl, isBlue, length, digits⟩ :=
      @exists_first_share width width _ narrow (by omega) digits
    obtain ⟨alpha, isAlpha⟩ := exists_share narrow length digits
    exact ⟨⟨red, green, blue, alpha⟩, .four rfl isRed isGreen isBlue isAlpha⟩

/-- Without a plus sign a share is made of digits. -/
theorem Share.digits {width : Nat} {text : List Char} {k : Nat} (share : Share width text k)
    (unsigned : '+' ∉ text) : ∀ c ∈ text, ∃ n, HexDigit c n := by
  cases share with
  | one digit => simpa using ⟨_, digit⟩
  | two high low => simpa using ⟨⟨_, high⟩, _, low⟩
  | signed => exact absurd List.mem_cons_self unsigned

/-- Without a plus sign the shares of a color are made of digits. -/
theorem Shares.digits {body : List Char} {c : Color} (shares : Shares body c)
    (unsigned : '+' ∉ body) : ∀ x ∈ body, ∃ n, HexDigit x n := by
  cases shares with
  | three split red green blue =>
    subst split
    simp only [List.mem_append, not_or] at unsigned
    simp only [List.forall_mem_append]
    exact ⟨red.digits unsigned.1, green.digits unsigned.2.1, blue.digits unsigned.2.2⟩
  | four split red green blue alpha =>
    subst split
    simp only [List.mem_append, not_or] at unsigned
    simp only [List.forall_mem_append]
    exact ⟨red.digits unsigned.1, green.digits unsigned.2.1, blue.digits unsigned.2.2.1,
      alpha.digits unsigned.2.2.2⟩

theorem plus_not_mem {body name : List Char} (named : body.map Char.toLower = name)
    (letters : '+' ∉ name) : '+' ∉ body :=
  fun mem => letters (named ▸ List.mem_map_of_mem (f := Char.toLower) mem)

/-- What is documented is what the grammar takes without a plus sign. -/
theorem documented_iff {body : List Char} :
    Documented body ↔ '+' ∉ body ∧ ∃ c, Spells body c := by
  constructor
  · rintro (named | named | ⟨length, digits⟩)
    · exact ⟨plus_not_mem named (by decide), white, .white named⟩
    · exact ⟨plus_not_mem named (by decide), black, .black named⟩
    · have unsigned : '+' ∉ body := fun mem => (digits _ mem).elim fun n plus => plus.ne_plus rfl
      have widths : body.length = 3 * 1 ∨ body.length = 4 * 1 ∨ body.length = 3 * 2 ∨
          body.length = 4 * 2 := by simpa using length
      obtain ⟨c, shares⟩ : ∃ c, Shares body c := by
        rcases widths with three | four | six | eight
        · exact exists_shares (.inl rfl) (.inl three) digits
        · exact exists_shares (.inl rfl) (.inr four) digits
        · exact exists_shares (.inr rfl) (.inl six) digits
        · exact exists_shares (.inr rfl) (.inr eight) digits
      exact ⟨unsigned, c, .shares shares⟩
  · rintro ⟨unsigned, c, named | named | shares⟩
    · exact .inl named
    · exact .inr (.inl named)
    · obtain ⟨width, narrow, size⟩ := shares.length
      have length : body.length ∈ [3, 4, 6, 8] := by
        simp only [List.mem_cons, List.not_mem_nil, or_false]
        omega
      exact .inr (.inr ⟨length, shares.digits unsigned⟩)

/-! ## Cutting at byte offsets -/

/-- In an ASCII text the offsets of bytes are those of characters, and no cut is refused. -/
theorem shareAt_of_ascii {before inside behind : List Char}
    (ascii : ∀ c ∈ before ++ (inside ++ behind), c.toNat ≤ 127) :
    shareAt (before ++ (inside ++ behind)) before.length (before.length + inside.length) =
      ExceptT.mk (some (component inside)) := by
  rw [shareAt, Text.slice?_of_ascii ascii]

/-- The value of a digit is below 16, and 17 times that fits into 8 bits. -/
theorem times17_of_digit {digit : Char} {n : UInt8} (read : component [digit] = .ok n) :
    times17 n = ExceptT.mk (some (.ok (n * 17))) := by
  have small := (component_one.1 read).lt
  have size : UInt8.size = 256 := rfl
  rw [times17, if_pos (by omega)]
  rfl

/-- Any other number of characters is a fault, which names the number. -/
theorem ofDigits_of_length {digits : List Char} (length : digits.length ∉ [3, 4, 6, 8]) :
    ofDigits digits = .error (.length digits.length) := by
  unfold ofDigits
  split
  case h_5 => rfl
  all_goals exact absurd (by simp) length

/-- Steps that are sure to have a result run as they do without the outer layer. -/
theorem checked_bind {α β : Type} {result : Except ColorFault α} {next : α → Checked β}
    {next' : α → Except ColorFault β}
    (sure : ∀ a, result = .ok a → next a = ExceptT.mk (some (next' a))) :
    (ExceptT.mk (some result) >>= next : Checked β) = ExceptT.mk (some (result >>= next')) := by
  cases result with
  | error fault => rfl
  | ok a => exact sure a rfl

/-- A digit is widened by a product that may as well be taken later, when the color is put together.
-/
theorem shade_bind {α : Type} (digit : Char) (next : UInt8 → Except ColorFault α) :
    (shade digit >>= next) = component [digit] >>= fun n => next (n * 17) := by
  rw [shade]
  cases component [digit] <;> rfl

/-- Cutting the shares out of ASCII by bytes does what taking them off one by one does. -/
theorem ofBytes?_of_ascii {digits : List Char} (ascii : ∀ c ∈ digits, c.toNat ≤ 127) :
    ofBytes? digits = ExceptT.mk (some (ofDigits digits)) := by
  unfold ofBytes?
  rw [Text.byteLength_of_ascii ascii]
  split
  · next three =>
    match digits, three with
    | [r, g, b], _ =>
      have cutRed : shareAt [r, g, b] 0 1 = _ := @shareAt_of_ascii [] [r] [g, b] ascii
      have cutGreen : shareAt [r, g, b] 1 2 = _ := @shareAt_of_ascii [r] [g] [b] ascii
      have cutBlue : shareAt [r, g, b] 2 3 = _ := @shareAt_of_ascii [r, g] [b] [] ascii
      simp only [cutRed, cutGreen, cutBlue, ofDigits, shade_bind]
      -- all shares are read before the first is multiplied, but no product fails in between
      refine checked_bind fun _ red => checked_bind fun _ green => checked_bind fun _ blue => ?_
      rw [times17_of_digit red, times17_of_digit green, times17_of_digit blue]
      rfl
  · next four =>
    match digits, four with
    | [r, g, b, a], _ =>
      have cutRed : shareAt [r, g, b, a] 0 1 = _ := @shareAt_of_ascii [] [r] [g, b, a] ascii
      have cutGreen : shareAt [r, g, b, a] 1 2 = _ := @shareAt_of_ascii [r] [g] [b, a] ascii
      have cutBlue : shareAt [r, g, b, a] 2 3 = _ := @shareAt_of_ascii [r, g] [b] [a] ascii
      have cutAlpha : shareAt [r, g, b, a] 3 4 = _ := @shareAt_of_ascii [r, g, b] [a] [] ascii
      simp only [cutRed, cutGreen, cutBlue, cutAlpha, ofDigits, shade_bind]
      refine checked_bind fun _ red => checked_bind fun _ green => checked_bind fun _ blue =>
        checked_bind fun _ alpha => ?_
      rw [times17_of_digit red, times17_of_digit green, times17_of_digit blue,
        times17_of_digit alpha]
      rfl
  · next six =>
    match digits, six with
    | [r, r', g, g', b, b'], _ =>
      have cutRed : shareAt [r, r', g, g', b, b'] 0 2 = _ :=
        @shareAt_of_ascii [] [r, r'] [g, g', b, b'] ascii
      have cutGreen : shareAt [r, r', g, g', b, b'] 2 4 = _ :=
        @shareAt_of_ascii [r, r'] [g, g'] [b, b'] ascii
      have cutBlue : shareAt [r, r', g, g', b, b'] 4 6 = _ :=
        @shareAt_of_ascii [r, r', g, g'] [b, b'] [] ascii
      simp only [cutRed, cutGreen, cutBlue, ofDigits]
      exact checked_bind fun _ _ => checked_bind fun _ _ => checked_bind fun _ _ => rfl
  · next eight =>
    match digits, eight with
    | [r, r', g, g', b, b', a, a'], _ =>
      have cutRed : shareAt [r, r', g, g', b, b', a, a'] 0 2 = _ :=
        @shareAt_of_ascii [] [r, r'] [g, g', b, b', a, a'] ascii
      have cutGreen : shareAt [r, r', g, g', b, b', a, a'] 2 4 = _ :=
        @shareAt_of_ascii [r, r'] [g, g'] [b, b', a, a'] ascii
      have cutBlue : shareAt [r, r', g, g', b, b', a, a'] 4 6 = _ :=
        @shareAt_of_ascii [r, r', g, g'] [b, b'] [a, a'] ascii
      have cutAlpha : shareAt [r, r', g, g', b, b', a, a'] 6 8 = _ :=
        @shareAt_of_ascii [r, r', g, g', b, b'] [a, a'] [] ascii
      simp only [cutRed, cutGreen, cutBlue, cutAlpha, ofDigits]
      exact checked_bind fun _ _ => checked_bind fun _ _ => checked_bind fun _ _ =>
        checked_bind fun _ _ => rfl
  · next not3 not4 not6 not8 =>
    have other : digits.length ∉ [3, 4, 6, 8] := by
      simp only [List.mem_cons, List.not_mem_nil, or_false, not_or]
      exact ⟨not3, not4, not6, not8⟩
    rw [ofDigits_of_length other]
    rfl

/-- No cut of the other reading fails and no product leaves the 8 bits. -/
theorem ofSpans?_eq_ofText (text : String) : ofSpans? text = ExceptT.mk (some (ofText text)) := by
  simp only [ofSpans?, ofText]
  by_cases isWhite : Text.equalsIgnoringCase (body text) "white".toList = true
  · rw [if_pos isWhite, if_pos isWhite]
    rfl
  · rw [if_neg isWhite, if_neg isWhite]
    by_cases isBlack : Text.equalsIgnoringCase (body text) "black".toList = true
    · rw [if_pos isBlack, if_pos isBlack]
      rfl
    · rw [if_neg isBlack, if_neg isBlack]
      by_cases ascii : ∀ c ∈ body text, c.toNat ≤ 127
      · have inside := fun beyond => any_beyond_ascii.1 beyond ascii
        rw [if_neg inside, if_neg inside, ofBytes?_of_ascii ascii]
      · have beyond := any_beyond_ascii.2 ascii
        rw [if_pos beyond, if_pos beyond]
        rfl

/-! ## Which texts are colors -/

/-- **A text names the color that it spells.**  It is read behind its `#`, and where it spells no
color, the error says which text that was.  Of the texts without a plus sign these are the names in
any case and three, four, six or eight hexadecimal digits.  The shares can be cut out by bytes, and
their products stay within 8 bits. -/
theorem named_accepts (text : String) :
    (∀ c, named text = .ok c ↔ Spells (body text) c) ∧
      (Documented (body text) ↔ '+' ∉ body text ∧ ∃ c, named text = .ok c) ∧
      ((¬ ∃ c, Spells (body text) c) ↔
        ∃ fault, ofText text = .error fault ∧ named text = .error (.color text fault.reason)) ∧
      ofSpans? text = ExceptT.mk (some (ofText text)) := by
  refine ⟨fun c => named_eq_ok_iff, ?_, not_spells_iff, ofSpans?_eq_ofText text⟩
  simp only [named_eq_ok_iff]
  exact documented_iff

/-- A plus sign in place of the first digit of each share: a color, though no digits. -/
theorem named_signed :
    named "#+F+F+F" = .ok ⟨15, 15, 15, 255⟩ ∧ ¬ Documented (body "#+F+F+F") := by
  have digits : body "#+F+F+F" = ['+', 'F', '+', 'F', '+', 'F'] := by decide
  refine ⟨named_eq_ok_iff.2 ?_, ?_⟩
  · have share : Share 2 ['+', 'F'] 15 := .signed (.upper (by decide) (by decide))
    rw [digits]
    exact .shares (.three rfl share share share rfl)
  · rw [documented_iff, digits]
    exact fun documented => documented.1 List.mem_cons_self

end Color

end CodeListing
