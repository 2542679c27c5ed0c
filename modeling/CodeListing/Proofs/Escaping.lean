import CodeListing.Markup.Spans
import CodeListing.Proofs.Markup
import CodeListing.Proofs.Utf8

/-!
# Escaped text

Writing foreign text goes through its bytes and puts off what is not special; `writeFrom?_eq` says
what is put off at each byte.  No cut is refused, since a byte that has an entity is a character by
itself and never a part of another one (`entityOfByte?_of_plain`).  What is written has a special
character only where an entity begins (`ampersand_placed`), and its entities give the text back
(`escape_faithful`).
-/

namespace CodeListing.Markup

open Text (byteLength bytes slice?)

/-! ## Entities -/

/-- A character with an entity is one byte, by which the entity is found. -/
theorem shownAs_of_special {c : Char} (special : isSpecial c = true) :
    (c, shownAs c) ∈ entities ∧ c.toNat ≤ 127 ∧ entityOfByte? c.toUInt8 = some (shownAs c) := by
  rcases eq_of_special special with rfl | rfl | rfl | rfl | rfl <;> decide

theorem isSpecial_of_mem_entities {c : Char} {entity : String} (mem : (c, entity) ∈ entities) :
    isSpecial c = true := by
  simp only [entities, List.mem_cons, Prod.mk.injEq, List.not_mem_nil, or_false] at mem
  rcases mem with ⟨rfl, -⟩ | ⟨rfl, -⟩ | ⟨rfl, -⟩ | ⟨rfl, -⟩ | ⟨rfl, -⟩ <;> rfl

/-- A character without an entity is written as it is. -/
theorem shownAs_of_plain {c : Char} (plain : isSpecial c = false) :
    shownAs c = String.singleton c := by
  have none : entities.lookup c = none := by
    rw [List.lookup_eq_none_iff]
    intro ⟨d, entity⟩ mem
    apply bne_iff_ne.2
    rintro rfl
    rw [isSpecial_of_mem_entities mem] at plain
    cases plain
  rw [shownAs, none]
  rfl

/-- The table of the entities says what escaping a character comes to. -/
theorem toList_shownAs (c : Char) : (shownAs c).toList = escapeChar c := by
  cases special : isSpecial c with
  | false => rw [shownAs_of_plain special, escapeChar_of_plain special, String.toList_singleton]
  | true =>
    rcases eq_of_special special with rfl | rfl | rfl | rfl | rfl <;> rfl

/-- No byte of another character is taken for a special one. -/
theorem entityOfByte?_of_plain {c : Char} (plain : isSpecial c = false) {byte : UInt8}
    (mem : byte ∈ String.utf8EncodeChar c) : entityOfByte? byte = none := by
  unfold entityOfByte?
  rw [Option.map_eq_none_iff, List.find?_eq_none]
  intro ⟨d, entity⟩ listed same
  have special : isSpecial d = true := isSpecial_of_mem_entities listed
  have ascii : d.toNat ≤ 127 := (shownAs_of_special special).2.1
  have code : byte.toNat = d.toNat := by
    rw [← beq_iff_eq.1 same]
    exact Nat.mod_eq_of_lt (Nat.lt_of_le_of_lt ascii (by decide))
  rcases Text.toNat_of_mem_utf8EncodeChar mem with own | beyond
  · obtain rfl : c = d := Char.toNat_inj.1 (own.symm.trans code)
    rw [plain] at special
    cases special
  · omega

/-! ## Going through the bytes -/

section Bytes

variable {text : List Char} {start place : Nat} {c : Char}

/-- Bytes without an entity only move the place on. -/
theorem writeFrom?_bytes_of_plain {front : List UInt8}
    (plain : ∀ byte ∈ front, entityOfByte? byte = none) (ahead : List UInt8) (written : String) :
    writeFrom? text start place (front ++ ahead) written =
      writeFrom? text start (place + front.length) ahead written := by
  induction front generalizing place with
  | nil => rfl
  | cons byte front ih =>
    obtain ⟨first, others⟩ := List.forall_mem_cons.1 plain
    rw [List.cons_append, writeFrom?, first]
    dsimp only
    rw [ih others, List.length_cons, Nat.add_assoc, Nat.add_comm 1]

/-- A character without an entity is put off. -/
theorem writeFrom?_of_plain (plain : isSpecial c = false) (ahead : List UInt8) (written : String) :
    writeFrom? text start place (String.utf8EncodeChar c ++ ahead) written =
      writeFrom? text start (place + c.utf8Size) ahead written := by
  rw [writeFrom?_bytes_of_plain fun byte mem => entityOfByte?_of_plain plain mem,
    String.length_utf8EncodeChar]

/-- At a character with an entity everything is written that was put off. -/
theorem writeFrom?_of_special (special : isSpecial c = true) {between : List Char}
    (cut : slice? text start place = some between) (ahead : List UInt8) (written : String) :
    writeFrom? text start place (String.utf8EncodeChar c ++ ahead) written =
      writeFrom? text (place + c.utf8Size) (place + c.utf8Size) ahead
        (written ++ String.ofList between ++ shownAs c) := by
  obtain ⟨-, ascii, entity⟩ := shownAs_of_special special
  have single : String.utf8EncodeChar c = [c.toUInt8] := Text.utf8EncodeChar_of_ascii ascii
  have size : c.utf8Size = 1 := by
    rw [← String.length_utf8EncodeChar, single, List.length_singleton]
  rw [single, size, List.singleton_append, writeFrom?, entity]
  dsimp only
  rw [cut, Option.bind_some]

end Bytes

/-- What stands between the last entity and the place that is come to is what is put off, and it is
cut out of the text without fail. -/
theorem writeFrom?_eq {text before between behind : List Char}
    (split : text = before ++ (between ++ behind)) (written : String) :
    writeFrom? text (byteLength before) (byteLength (before ++ between)) (bytes behind) written =
      some (written ++ String.ofList (between ++ behind.flatMap escapeChar)) := by
  induction behind generalizing before between written with
  | nil =>
    have whole : byteLength text = byteLength (before ++ between) := by
      rw [split, List.append_nil]
    have none : bytes [] = [] := rfl
    have cut : slice? text (byteLength before) (byteLength (before ++ between)) = some between :=
      Text.slice?_eq_some_iff.2 ⟨before, [], split, rfl, rfl⟩
    rw [none, writeFrom?, List.flatMap_nil, List.append_nil, whole]
    by_cases more : byteLength before < byteLength (before ++ between)
    · rw [if_pos more, cut, Option.map_some]
    · -- The last character was special, so that there is nothing to cut.
      rw [if_neg more]
      rw [Text.byteLength_append] at more
      obtain rfl : between = [] := Text.eq_nil_of_byteLength (by omega)
      rw [String.ofList_nil, String.append_empty]
  | cons c behind ih =>
    have next : byteLength (before ++ between) + c.utf8Size =
        byteLength (before ++ (between ++ [c])) := by
      rw [← List.append_assoc, Text.byteLength_append (before ++ between)]
      rfl
    rw [Text.bytes_cons, List.flatMap_cons]
    cases special : isSpecial c with
    | false =>
      have split' : text = before ++ ((between ++ [c]) ++ behind) := by
        rw [split, List.append_assoc, List.singleton_append]
      rw [writeFrom?_of_plain special, next, ih split', escapeChar_of_plain special,
        List.append_assoc]
    | true =>
      have cut : slice? text (byteLength before) (byteLength (before ++ between)) = some between :=
        Text.slice?_eq_some_iff.2 ⟨before, c :: behind, split, rfl, rfl⟩
      have split' : text = (before ++ (between ++ [c])) ++ ([] ++ behind) := by
        rw [split, List.nil_append, List.append_assoc, List.append_assoc, List.singleton_append]
      have ahead := ih split' (written ++ String.ofList between ++ shownAs c)
      rw [List.append_nil] at ahead
      rw [writeFrom?_of_special special cut, next, ahead, ← String.ofList_toList (s := shownAs c),
        toList_shownAs, List.nil_append, String.append_assoc, String.append_assoc,
        ← String.ofList_append, ← String.ofList_append]

/-- Going through the bytes never fails, and comes to the escaped text. -/
theorem writeEscaped?_eq (written text : String) :
    writeEscaped? written text = some (written ++ escape text) := by
  have split : text.toList = [] ++ ([] ++ text.toList) := rfl
  exact writeFrom?_eq split written

/-! ## What is written -/

/-- Each character is written by itself, whatever is next to it. -/
theorem escape_eq_join (text : String) : escape text = String.join (text.toList.map shownAs) := by
  rw [← String.toList_inj, toList_escape, String.toList_join, List.flatMap_map]
  simp only [toList_shownAs]

theorem escape_append (text other : String) :
    escape (text ++ other) = escape text ++ escape other := by
  rw [← String.toList_inj, toList_escape, String.toList_append, List.flatMap_append,
    String.toList_append, toList_escape, toList_escape]

/-- An entity has its ampersand in front. -/
theorem eq_nil_of_escapeChar {c : Char} {before behind : List Char}
    (split : escapeChar c = before ++ '&' :: behind) : before = [] ∧ isSpecial c = true := by
  cases special : isSpecial c with
  | false =>
    rw [escapeChar_of_plain special] at split
    have amp : '&' ∈ [c] := split ▸ List.mem_append_right before List.mem_cons_self
    rw [← List.mem_singleton.1 amp] at special
    cases special
  | true =>
    have front : '&' ∉ (escapeChar c).tail := by
      rcases eq_of_special special with rfl | rfl | rfl | rfl | rfl <;> decide
    refine ⟨?_, rfl⟩
    cases before with
    | nil => rfl
    | cons first before =>
      rw [split, List.cons_append, List.tail_cons] at front
      exact absurd (List.mem_append_right before List.mem_cons_self) front

/-- An ampersand is only written for a special character of the text, as the beginning of its
entity. -/
theorem ampersand_placed {cs before behind : List Char}
    (placed : cs.flatMap escapeChar = before ++ '&' :: behind) :
    ∃ done c others, cs = done ++ c :: others ∧ isSpecial c = true ∧
      before = done.flatMap escapeChar ∧
      '&' :: behind = escapeChar c ++ others.flatMap escapeChar := by
  induction cs generalizing before with
  | nil => exact absurd placed.symm (List.append_ne_nil_of_right_ne_nil _ (List.cons_ne_nil _ _))
  | cons c cs ih =>
    have later {more : List Char} (rest : cs.flatMap escapeChar = more ++ '&' :: behind)
        (front : before = escapeChar c ++ more) : ∃ done d others, c :: cs = done ++ d :: others ∧
          isSpecial d = true ∧ before = done.flatMap escapeChar ∧
          '&' :: behind = escapeChar d ++ others.flatMap escapeChar := by
      obtain ⟨done, d, others, split, special, ahead, entity⟩ := ih rest
      refine ⟨c :: done, d, others, ?_, special, ?_, entity⟩
      · rw [split, List.cons_append]
      · rw [front, ahead, List.flatMap_cons]
    rw [List.flatMap_cons] at placed
    rcases List.append_eq_append_iff.1 placed with ⟨more, front, rest⟩ | ⟨inside, split, rest⟩
    · exact later rest front
    · cases inside with
      | nil =>
        rw [List.append_nil] at split
        have front : before = escapeChar c ++ [] := by rw [split, List.append_nil]
        have rest' : cs.flatMap escapeChar = [] ++ '&' :: behind := rest.symm
        exact later rest' front
      | cons first inside =>
        obtain ⟨rfl, tail⟩ := List.cons.inj rest
        obtain ⟨rfl, special⟩ := eq_nil_of_escapeChar split
        exact ⟨[], c, cs, rfl, special, rfl, by rw [split, List.nil_append, rest]⟩

/-- A text is read back from its escaped form and from no other. -/
theorem unescape?_eq_some_iff {written text : List Char} :
    unescape? written = some text ↔ written = text.flatMap escapeChar := by
  constructor
  · exact eq_of_unescape?
  · rintro rfl
    have read := unescape?_escape (String.ofList text)
    rwa [toList_escape, String.toList_ofList] at read

/-! ## Escaping as a whole -/

/-- **Escaping is faithful.**  Going through the bytes of a text, with what stands between special
ones cut out of it at byte offsets, never fails.  Every character is written as its entity or as
itself, wherever it stands and whatever stands next to it.  No delimiter is left, every ampersand
begins one of the five entities, and the text is what is read back, from this one form only. -/
theorem escape_faithful (text : String) :
    (∀ written, writeEscaped? written text = some (written ++ escape text) ∧
      OutputBuffer.appendEscaped ⟨some written⟩ text = .ok ⟨some (written ++ escape text)⟩) ∧
    escape text = String.join (text.toList.map shownAs) ∧
    (∀ other, escape (text ++ other) = escape text ++ escape other) ∧
    (∀ c ∈ (escape text).toList, c ≠ '<' ∧ c ≠ '>' ∧ c ≠ '"' ∧ c ≠ '\'') ∧
    (∀ before behind, (escape text).toList = before ++ '&' :: behind →
      EntityPlaced text before behind) ∧
    ∀ written, unescape? written = some text.toList ↔ written = (escape text).toList := by
  refine ⟨fun written => ⟨writeEscaped?_eq written text, rfl⟩, escape_eq_join text,
    escape_append text, fun c mem => not_delimiter_of_mem_escape mem, ?_, fun written => ?_⟩
  · intro before behind placed
    rw [toList_escape] at placed
    obtain ⟨done, c, others, split, special, front, entity⟩ := ampersand_placed placed
    refine ⟨done, c, others, split, (shownAs_of_special special).1, ?_, ?_⟩
    · rw [toList_escape, String.toList_ofList, front]
    · rw [toList_escape, String.toList_ofList, toList_shownAs, entity]
  · rw [unescape?_eq_some_iff, toList_escape]

/-- An entity that stands in the text already, next to a special character and a character of
several bytes. -/
theorem escape_faithful_entity :
    let text := "ß<&lt;'\u20ac>"
    let before := "ß&lt;".toList
    let behind := "amp;lt;&#39;\u20ac&gt;".toList
    (escape text).toList = before ++ '&' :: behind ∧ '&' ∈ (escape text).toList ∧
      writeEscaped? "a" text = some "aß&lt;&amp;lt;&#39;\u20ac&gt;" ∧ '&' ≠ '<' ∧
      EntityPlaced text before behind := by
  intro text before behind
  obtain ⟨written, -, -, delimiters, ampersands, -⟩ := escape_faithful text
  have placed : (escape text).toList = before ++ '&' :: behind := by decide
  have mem : '&' ∈ (escape text).toList := placed ▸ List.mem_append_right before List.mem_cons_self
  have whole : some ("a" ++ escape text) = some "aß&lt;&amp;lt;&#39;\u20ac&gt;" := by decide
  exact ⟨placed, mem, (written "a").1.trans whole, (delimiters '&' mem).1,
    ampersands before behind placed⟩

end CodeListing.Markup
