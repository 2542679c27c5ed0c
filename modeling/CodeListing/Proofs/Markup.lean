import CodeListing.Markup.Reader
import CodeListing.Proofs.OutputBuffer

/-!
# Markup read back

Markup whose literals hold no special character is read as what it is meant to be, whatever its
foreign text holds: `reads_toText` finds its tags and its characters, and
`unescape?_eraseTags_toText` its characters alone.  A literal without special characters is its own
escaped form, so that only escaped text has to be looked at.  What is read at all is written in one
form only (`eq_of_lexemes?`).
-/

namespace CodeListing.Markup

/-! ## Sound markup -/

/-- Whether a text holds no special character. -/
def isPlain (text : String) : Bool := text.toList.all (!isSpecial ·)

/-- Whether a text may be the name of an element or of an attribute. -/
def isName (text : String) : Bool := text.toList.all isNameChar

/-- A literal among the values holds no special character. -/
def Value.Sound : Value → Prop
  | .literal text => isPlain text
  | .foreign _ => True

/-- The names of a piece are names, and its literals hold no special character. -/
def Piece.Sound : Piece → Prop
  | .openTag name attributes => isName name ∧ ∀ a ∈ attributes, isName a.1 ∧ a.2.Sound
  | .closeTag name => isName name
  | .literal content => isPlain content
  | .text _ => True
  | .number _ => True

instance (v : Value) : Decidable v.Sound :=
  match v with
  | .literal text => inferInstanceAs (Decidable (isPlain text = true))
  | .foreign _ => inferInstanceAs (Decidable True)

instance (p : Piece) : Decidable p.Sound :=
  match p with
  | .openTag name attributes =>
    inferInstanceAs
      (Decidable (isName name = true ∧ ∀ a ∈ attributes, isName a.1 = true ∧ a.2.Sound))
  | .closeTag name => inferInstanceAs (Decidable (isName name = true))
  | .literal content => inferInstanceAs (Decidable (isPlain content = true))
  | .text _ => inferInstanceAs (Decidable True)
  | .number _ => inferInstanceAs (Decidable True)

@[simp]
theorem isPlain_append (a b : String) : isPlain (a ++ b) = (isPlain a && isPlain b) := by
  simp [isPlain]

/-- Every piece is sound. -/
def AllSound (markup : List Piece) : Prop := ∀ p ∈ markup, p.Sound

theorem AllSound.append {a b : List Piece} (first : AllSound a) (second : AllSound b) :
    AllSound (a ++ b) := by
  intro p member
  rcases List.mem_append.1 member with inA | inB
  · exact first p inA
  · exact second p inB

theorem AllSound.flatMap {α : Type} {f : α → List Piece} (each : ∀ a, AllSound (f a))
    (as : List α) :
    AllSound (as.flatMap f) := by
  intro p member
  obtain ⟨a, -, inA⟩ := List.mem_flatMap.1 member
  exact each a p inA

/-- An element is sound if its name and attributes are, and its content. -/
theorem AllSound.element {name : String} {attributes : List (String × Value)} {content : List Piece}
    (named : isName name) (held : ∀ a ∈ attributes, isName a.1 ∧ a.2.Sound)
    (within : AllSound content) :
    AllSound (element name attributes content) := by
  intro p member
  rw [Markup.element, List.mem_append, List.mem_cons, List.mem_singleton] at member
  rcases member with (rfl | inside) | rfl
  · exact ⟨named, held⟩
  · exact within p inside
  · exact named

/-! ## Escaped text -/

theorem toList_escape (text : String) : (escape text).toList = text.toList.flatMap escapeChar := by
  simp [escape]

theorem eq_of_special {c : Char} (special : isSpecial c = true) :
    c = '<' ∨ c = '>' ∨ c = '&' ∨ c = '\'' ∨ c = '"' := by
  simpa only [isSpecial, Bool.or_eq_true, beq_iff_eq, or_assoc] using special

theorem escapeChar_of_plain {c : Char} (plain : isSpecial c = false) : escapeChar c = [c] := by
  unfold escapeChar
  split <;> first | rfl | cases plain

/-- Text without special characters is its own escaped form. -/
theorem escape_of_plain {text : String} (plain : isPlain text) : escape text = text := by
  have same : ∀ cs : List Char, (∀ c ∈ cs, isSpecial c = false) → cs.flatMap escapeChar = cs := by
    intro cs plain
    induction cs with
    | nil => rfl
    | cons c cs ih =>
      rw [List.flatMap_cons, escapeChar_of_plain (plain c List.mem_cons_self),
        ih fun c member => plain c (List.mem_cons_of_mem _ member), List.singleton_append]
  rw [escape, same _ (by simpa [isPlain] using plain), String.ofList_toList]

/-- A number in decimal needs no entity. -/
theorem isPlain_decimal (n : UInt64) : isPlain (Text.decimal n) := by
  have digit : ∀ c : Char, c.isDigit → isSpecial c = false := by
    intro c digit
    cases special : isSpecial c with
    | false => rfl
    | true =>
      rcases eq_of_special special with rfl | rfl | rfl | rfl | rfl <;> cases digit
  rw [isPlain, Text.toList_decimal, List.all_eq_true]
  intro c member
  simpa using digit c (Nat.isDigit_of_mem_toDigits (by decide) (by decide) member)

/-- A sound value is written as if it were foreign, for its literals need no entity. -/
theorem Value.toText_of_sound {v : Value} (sound : v.Sound) : v.toText = escape v.content := by
  cases v with
  | literal text => exact (escape_of_plain sound).symm
  | foreign text => rfl

/-- No character of escaped text begins or ends a tag or ends a value. -/
theorem not_delimiter_of_mem_escape {text : String} {c : Char} (member : c ∈ (escape text).toList) :
    c ≠ '<' ∧ c ≠ '>' ∧ c ≠ '"' ∧ c ≠ '\'' := by
  rw [toList_escape, List.mem_flatMap] at member
  obtain ⟨original, -, member⟩ := member
  unfold escapeChar at member
  split at member
  case h_6 amp lt gt quote apostrophe =>
    obtain rfl := List.mem_singleton.1 member
    simp_all
  all_goals
    simp only [List.mem_cons, List.not_mem_nil, or_false] at member
    rcases member with rfl | rfl | rfl | rfl | rfl | rfl <;> decide

/-! ## Reading escaped text -/

theorem readChar?_of_plain {c : Char} (plain : isSpecial c = false) (rest : List Char) :
    readChar? (c :: rest) = some (c, rest) := by
  have notAmp : c ≠ '&' := by
    rintro rfl
    cases plain
  unfold readChar?
  split <;> simp_all

/-- Each character is read back from what is written for it, whatever follows. -/
theorem readChar?_escapeChar (c : Char) (rest : List Char) :
    readChar? (escapeChar c ++ rest) = some (c, rest) := by
  unfold escapeChar
  split
  case h_6 => exact readChar?_of_plain (by simp_all [isSpecial]) rest
  all_goals rfl

theorem unescape?_eq (text : List Char) :
    unescape? text =
      match readChar? text with
      | some (c, rest) => (unescape? rest).map (c :: ·)
      | none => if text.isEmpty then some [] else none := by
  rw [unescape?]
  split <;> simp_all

/-- The entities of escaped text are what they stand for. -/
theorem unescape?_escape_append (text : String) (rest : List Char) :
    unescape? ((escape text).toList ++ rest) = (unescape? rest).map (text.toList ++ ·) := by
  rw [toList_escape]
  induction text.toList with
  | nil => simp
  | cons c cs ih =>
    rw [List.flatMap_cons, List.append_assoc, unescape?_eq, readChar?_escapeChar]
    simp only [ih, Option.map_map]
    rfl

theorem unescape?_nil : unescape? [] = some [] := by
  rw [unescape?_eq]
  rfl

/-- Escaped text is read back as it was. -/
theorem unescape?_escape (text : String) : unescape? (escape text).toList = some text.toList := by
  have whole := unescape?_escape_append text []
  rw [unescape?_nil, Option.map_some, List.append_nil, List.append_nil] at whole
  exact whole

/-! ## Reading tags -/

/-- A run is read up to the first character that stops it. -/
theorem takeWhile_until {p : Char → Bool} {inside : List Char} {d : Char}
    (all : ∀ c ∈ inside, p c = true) (stop : p d = false) (rest : List Char) :
    (inside ++ d :: rest).takeWhile p = inside ∧ (inside ++ d :: rest).dropWhile p = d :: rest := by
  constructor
  · rw [List.takeWhile_append_of_pos all, List.takeWhile_cons_of_neg (by simp [stop]),
      List.append_nil]
  · rw [List.dropWhile_append_of_pos all, List.dropWhile_cons_of_neg (by simp [stop])]

theorem isNameChar_of_mem {name : String} {c : Char} (named : isName name)
    (member : c ∈ name.toList) :
    isNameChar c = true :=
  List.all_eq_true.1 named c member

theorem toList_attributeText {value : Value} (sound : value.Sound) (name : String) :
    (attributeText name value).toList =
      ' ' :: (name.toList ++ '=' :: '"' :: ((escape value.content).toList ++ ['"'])) := by
  simp [attributeText, Value.toText_of_sound sound]

/-- A sound attribute is read back with its value, whatever follows. -/
theorem readAttribute?_append {name : String} {value : Value} (named : isName name)
    (sound : value.Sound) (rest : List Char) :
    readAttribute? ((attributeText name value).toList ++ rest) =
      some ((name, value.content), rest) := by
  have form : (attributeText name value).toList ++ rest =
      ' ' :: (name.toList ++ '=' :: '"' :: ((escape value.content).toList ++ '"' :: rest)) := by
    simp [toList_attributeText sound]
  have endOfName := takeWhile_until (p := isNameChar) (d := '=')
    (fun _ => isNameChar_of_mem named) (by decide)
    ('"' :: ((escape value.content).toList ++ '"' :: rest))
  have within : ∀ c ∈ (escape value.content).toList, (c != '"') = true := fun c member =>
    bne_iff_ne.2 (not_delimiter_of_mem_escape member).2.2.1
  have endOfValue := takeWhile_until (p := (· != '"')) (d := '"') within (by decide) rest
  rw [form]
  simp only [readAttribute?, endOfName, endOfValue, unescape?_escape, Option.map_some,
    String.ofList_toList]

theorem readAttributes?_eq (text : List Char) :
    readAttributes? text =
      match readAttribute? text with
      | some (a, rest) => (readAttributes? rest).map (a :: ·)
      | none => if text.isEmpty then some [] else none := by
  rw [readAttributes?]
  split <;> simp_all

/-- Sound attributes are read back one after the other. -/
theorem readAttributes?_join {attributes : List (String × Value)}
    (sound : ∀ a ∈ attributes, isName a.1 ∧ a.2.Sound) :
    readAttributes?
        (String.join (attributes.map fun (name, value) => attributeText name value)).toList =
      some (attributes.map fun (name, value) => (name, value.content)) := by
  induction attributes with
  | nil =>
    rw [readAttributes?_eq]
    rfl
  | cons a attributes ih =>
    obtain ⟨named, held⟩ := sound a List.mem_cons_self
    have others := ih fun a member => sound a (List.mem_cons_of_mem _ member)
    rw [List.map_cons, String.join_cons, String.toList_append, readAttributes?_eq,
      readAttribute?_append named held]
    simp only [others, Option.map_some, List.map_cons]

/-- What stands between the brackets of a tag that opens an element. -/
def tagText (name : String) (attributes : List (String × Value)) : List Char :=
  name.toList ++ (String.join (attributes.map fun (name, value) => attributeText name value)).toList

/-- A sound tag is read back with its attributes. -/
theorem readTag?_tagText {name : String} {attributes : List (String × Value)} (named : isName name)
    (sound : ∀ a ∈ attributes, isName a.1 ∧ a.2.Sound) :
    readTag? (tagText name attributes) =
      some (.openTag name (attributes.map fun (name, value) => (name, value.content))) := by
  have read := readAttributes?_join sound
  have endOfName : (tagText name attributes).takeWhile isNameChar = name.toList ∧
      (tagText name attributes).dropWhile isNameChar =
        (String.join (attributes.map fun (name, value) => attributeText name value)).toList := by
    cases attributes with
    | nil => simpa [tagText] using fun c => isNameChar_of_mem named
    | cons a attributes =>
      have held := (sound a List.mem_cons_self).2
      simp only [tagText, List.map_cons, String.join_cons, String.toList_append,
        toList_attributeText held, List.cons_append]
      exact takeWhile_until (fun _ => isNameChar_of_mem named) (by decide) _
  unfold readTag?
  split
  · next text closing =>
    -- a name does not begin like a closing tag, and neither does an attribute
    exfalso
    have first : (tagText name attributes).takeWhile isNameChar = [] := by
      rw [closing]
      rfl
    rw [endOfName.1] at first
    cases attributes with
    | nil => simp [tagText, first] at closing
    | cons a attributes =>
      simp [tagText, first, toList_attributeText (sound a List.mem_cons_self).2] at closing
  · rw [endOfName.1, endOfName.2, read, Option.map_some, String.ofList_toList]

theorem ne_of_isNameChar {c : Char} (named : isNameChar c = true) : c ≠ '<' ∧ c ≠ '>' := by
  constructor <;>
  · rintro rfl
    cases named

/-- Inside a sound tag nothing ends it, as its values have been escaped. -/
theorem not_mem_tagText {name : String} {attributes : List (String × Value)} (named : isName name)
    (sound : ∀ a ∈ attributes, isName a.1 ∧ a.2.Sound) :
    ∀ c ∈ tagText name attributes, c ≠ '>' := by
  have outside : ∀ c ∈ name.toList, c ≠ '>' := fun c member =>
    (ne_of_isNameChar (isNameChar_of_mem named member)).2
  have within :
      ∀ c ∈ (String.join (attributes.map fun (name, value) => attributeText name value)).toList,
        c ≠ '>' := by
    induction attributes with
    | nil => simp
    | cons a attributes ih =>
      obtain ⟨named, held⟩ := sound a List.mem_cons_self
      intro c member
      simp only [List.map_cons, String.join_cons, String.toList_append, toList_attributeText held,
        List.mem_append, List.mem_cons, List.not_mem_nil, or_false] at member
      rcases member with (rfl | inName | rfl | rfl | inValue | rfl) | others
      · decide
      · exact (ne_of_isNameChar (isNameChar_of_mem named inName)).2
      · decide
      · decide
      · exact (not_delimiter_of_mem_escape inValue).2.1
      · decide
      · exact ih (fun a member => sound a (List.mem_cons_of_mem _ member)) c others
  intro c member
  rcases List.mem_append.1 member with inName | inAttributes
  · exact outside c inName
  · exact within c inAttributes

/-! ## The reader is strict -/

/-- A character that is read stands there in its one escaped form. -/
theorem eq_of_readChar? {text rest : List Char} {c : Char}
    (read : readChar? text = some (c, rest)) :
    text = escapeChar c ++ rest := by
  unfold readChar? at read
  split at read
  case h_6 d others _ _ _ _ _ =>
    split at read
    · cases read
    · next plain =>
      obtain ⟨rfl, rfl⟩ := Prod.mk.inj (Option.some.inj read)
      rw [escapeChar_of_plain (by simpa using plain), List.singleton_append]
  case h_7 => cases read
  all_goals
    obtain ⟨rfl, rfl⟩ := Prod.mk.inj (Option.some.inj read)
    rfl

/-- A text that is read stands there in its one escaped form. -/
theorem eq_of_unescape? {text cs : List Char} (read : unescape? text = some cs) :
    text = cs.flatMap escapeChar := by
  fun_induction unescape? text generalizing cs with
  | case1 text c rest first ih =>
    obtain ⟨others, behind, rfl⟩ := Option.map_eq_some_iff.1 read
    rw [eq_of_readChar? first, List.flatMap_cons, ← ih behind]
  | case2 text none empty =>
    obtain rfl := Option.some.inj read
    exact List.isEmpty_iff.1 empty
  | case3 => cases read

/-- An attribute that is read stands there as it would be written. -/
theorem eq_of_readAttribute? {text rest : List Char} {name value : String}
    (read : readAttribute? text = some ((name, value), rest)) :
    text = (attributeText name (.foreign value)).toList ++ rest := by
  unfold readAttribute? at read
  split at read
  · next text =>
    split at read
    · next behind named =>
      split at read
      · next others closed =>
        obtain ⟨decoded, decode, same⟩ := Option.map_eq_some_iff.1 read
        obtain ⟨parts, rfl⟩ := Prod.mk.inj same
        obtain ⟨rfl, rfl⟩ := Prod.mk.inj parts
        have first : text = text.takeWhile isNameChar ++ '=' :: '"' :: behind := by
          rw [← named, List.takeWhile_append_dropWhile]
        have second : behind = decoded.flatMap escapeChar ++ '"' :: others := by
          rw [← closed, ← eq_of_unescape? decode, List.takeWhile_append_dropWhile]
        have foreign : (Value.foreign (String.ofList decoded)).Sound := trivial
        rw [second] at first
        rw [toList_attributeText foreign]
        simpa [Value.content, toList_escape] using first
      · cases read
    · cases read
  · cases read

/-- Attributes that are read stand there as they would be written. -/
theorem eq_of_readAttributes? {text : List Char} {attributes : List (String × String)}
    (read : readAttributes? text = some attributes) :
    text = attributes.flatMap fun (name, value) =>
      (attributeText name (.foreign value)).toList := by
  fun_induction readAttributes? text generalizing attributes with
  | case1 text a rest first ih =>
    obtain ⟨others, behind, rfl⟩ := Option.map_eq_some_iff.1 read
    obtain ⟨name, value⟩ := a
    rw [eq_of_readAttribute? first, List.flatMap_cons, ← ih behind]
  | case2 text none empty =>
    obtain rfl := Option.some.inj read
    exact List.isEmpty_iff.1 empty
  | case3 => cases read

/-- A tag that is read stands there as it would be written. -/
theorem eq_of_readTag? {text : List Char} {tag : Lexeme} (read : readTag? text = some tag) :
    '<' :: (text ++ ['>']) = tag.written := by
  unfold readTag? at read
  split at read
  · split at read
    · obtain rfl := Option.some.inj read
      simp [Lexeme.written]
    · cases read
  · obtain ⟨attributes, behind, rfl⟩ := Option.map_eq_some_iff.1 read
    rw [Lexeme.written, ← eq_of_readAttributes? behind, String.toList_ofList,
      List.takeWhile_append_dropWhile]
    rfl

/-- What is read as tags and characters is written as they are: every character that has an entity
stands in one of the tags, or in its entity. -/
theorem eq_of_lexemes? {text : List Char} {ls : List Lexeme} (read : lexemes? text = some ls) :
    text = ls.flatMap Lexeme.written := by
  fun_induction lexemes? text generalizing ls with
  | case1 =>
    obtain rfl := Option.some.inj read
    rfl
  | case2 text closed ih =>
    obtain ⟨tag, within, behind⟩ := Option.bind_eq_some_iff.1 read
    obtain ⟨others, rest, rfl⟩ := Option.map_eq_some_iff.1 behind
    have last : text.dropWhile (· != '>') = '>' :: (text.dropWhile (· != '>')).tail := by
      have ends := List.head?_dropWhile_not (· != '>') text
      cases found : text.dropWhile (· != '>') with
      | nil =>
        have all := List.dropWhile_eq_nil_iff.1 found '>' (by simpa using closed)
        cases all
      | cons d rest =>
        rw [found] at ends
        rw [List.tail_cons, bne_eq_false_iff_eq.1 ends]
    rw [List.flatMap_cons, ← eq_of_readTag? within, ← ih rest, List.cons_append, List.append_assoc,
      List.singleton_append, ← last, List.takeWhile_append_dropWhile]
  | case3 => cases read
  | case4 c text noTag d rest first ih =>
    obtain ⟨others, behind, rfl⟩ := Option.map_eq_some_iff.1 read
    rw [eq_of_readChar? first, List.flatMap_cons, ← ih behind]
    rfl
  | case5 => cases read

/-! ## Reading markup -/

theorem lexemes?_nil : lexemes? [] = some [] := by
  rw [lexemes?]

theorem lexemes?_char {text rest : List Char} {c : Char} (read : readChar? text = some (c, rest)) :
    lexemes? text = (lexemes? rest).map (.char c :: ·) := by
  cases text with
  | nil => cases read
  | cons d text =>
    have noTag : d ≠ '<' := by
      rintro rfl
      cases read
    rw [lexemes?, if_neg noTag]
    split <;> simp_all

theorem lexemes?_tag {inside : List Char} {tag : Lexeme} (read : readTag? inside = some tag)
    (within : ∀ c ∈ inside, c ≠ '>') (rest : List Char) :
    lexemes? ('<' :: (inside ++ '>' :: rest)) = (lexemes? rest).map (tag :: ·) := by
  obtain ⟨first, last⟩ := takeWhile_until (p := (· != '>')) (d := '>')
    (fun c member => bne_iff_ne.2 (within c member)) (by decide) rest
  rw [lexemes?, if_pos rfl, if_pos (by simp), first, last, read, Option.bind_some, List.tail_cons]

/-- Escaped text is read as its characters. -/
theorem lexemes?_escape_append (text : String) (rest : List Char) :
    lexemes? ((escape text).toList ++ rest) = (lexemes? rest).map (text.toList.map .char ++ ·) := by
  rw [toList_escape]
  induction text.toList with
  | nil => simp
  | cons c cs ih =>
    rw [List.flatMap_cons, List.append_assoc, lexemes?_char (readChar?_escapeChar c _), ih,
      Option.map_map]
    rfl

theorem eraseTags_tag {inside : List Char} (within : ∀ c ∈ inside, c ≠ '>') (rest : List Char) :
    eraseTags false ('<' :: (inside ++ '>' :: rest)) = eraseTags false rest := by
  have leave : eraseTags true (inside ++ '>' :: rest) = eraseTags false rest := by
    induction inside with
    | nil => rfl
    | cons c inside ih =>
      have stays : (c != '>') = true := bne_iff_ne.2 (within c List.mem_cons_self)
      simp only [List.cons_append, eraseTags, if_true, stays]
      exact ih fun c member => within c (List.mem_cons_of_mem _ member)
  simp only [eraseTags, Bool.false_eq_true, if_false, if_true, leave]

/-- What holds no tag stays when tags are erased. -/
theorem eraseTags_append {text : List Char} (noTag : ∀ c ∈ text, c ≠ '<') (rest : List Char) :
    eraseTags false (text ++ rest) = text ++ eraseTags false rest := by
  induction text with
  | nil => rfl
  | cons c text ih =>
    have others := ih fun c member => noTag c (List.mem_cons_of_mem _ member)
    simp [eraseTags, noTag c List.mem_cons_self, others]

/-- A sound piece is written as a tag that is read back, or as escaped text. -/
theorem Piece.toText_of_sound {p : Piece} (sound : p.Sound) :
    (∃ inside tag, p.toText.toList = '<' :: (inside ++ ['>']) ∧ (∀ c ∈ inside, c ≠ '>') ∧
        readTag? inside = some tag ∧ p.lexemes = [tag] ∧ p.content = []) ∨
      ∃ text, p.toText = escape text ∧ p.lexemes = text.toList.map .char ∧
        p.content = text.toList := by
  cases p with
  | openTag name attributes =>
    obtain ⟨named, held⟩ := sound
    refine .inl ⟨tagText name attributes, _, ?_, not_mem_tagText named held,
      readTag?_tagText named held, rfl, rfl⟩
    simp [Piece.toText, tagText]
  | closeTag name =>
    refine .inl ⟨'/' :: name.toList, .closeTag name, by simp [Piece.toText], ?_, ?_, rfl, rfl⟩
    · intro c member
      rcases List.mem_cons.1 member with rfl | inName
      · decide
      · exact (ne_of_isNameChar (isNameChar_of_mem sound inName)).2
    · have all : name.toList.all isNameChar = true := sound
      rw [readTag?, if_pos all, String.ofList_toList]
  | literal content => exact .inr ⟨content, (escape_of_plain sound).symm, rfl, rfl⟩
  | text content => exact .inr ⟨content, rfl, rfl, rfl⟩
  | number n => exact .inr ⟨Text.decimal n, (escape_of_plain (isPlain_decimal n)).symm, rfl, rfl⟩

/-- Sound markup is read piece by piece, as what its pieces are meant to be. -/
theorem lexemes?_toText {markup : List Piece} (sound : AllSound markup) :
    lexemes? (toText markup).toList = some (markup.flatMap Piece.lexemes) := by
  induction markup with
  | nil => exact lexemes?_nil
  | cons p markup ih =>
    have others := ih fun p member => sound p (List.mem_cons_of_mem _ member)
    rw [toText_cons, String.toList_append, List.flatMap_cons]
    rcases Piece.toText_of_sound (sound p List.mem_cons_self) with
      ⟨inside, tag, form, within, read, meant, -⟩ | ⟨text, form, meant, -⟩
    · rw [form, List.cons_append, List.append_assoc, List.singleton_append,
        lexemes?_tag read within, others, meant]
      rfl
    · rw [form, lexemes?_escape_append, others, meant]
      rfl

/-- **Sound markup is read as it is meant.**  Its tags are the ones of its pieces, and everything
else in it is a character, whatever its foreign text holds. -/
theorem reads_toText {markup : List Piece} (sound : AllSound markup) :
    Reads (toText markup) (markup.flatMap Piece.lexemes) :=
  ⟨lexemes?_toText sound, eq_of_lexemes? (lexemes?_toText sound)⟩

/-- Without its tags and with its entities taken for what they stand for, sound markup is the text
that it shows. -/
theorem unescape?_eraseTags_toText {markup : List Piece} (sound : AllSound markup) :
    unescape? (eraseTags false (toText markup).toList) = some (markup.flatMap Piece.content) := by
  induction markup with
  | nil => exact unescape?_nil
  | cons p markup ih =>
    have others := ih fun p member => sound p (List.mem_cons_of_mem _ member)
    rw [toText_cons, String.toList_append, List.flatMap_cons]
    rcases Piece.toText_of_sound (sound p List.mem_cons_self) with
      ⟨inside, tag, form, within, -, -, meant⟩ | ⟨text, form, -, meant⟩
    · rw [form, List.cons_append, List.append_assoc, List.singleton_append, eraseTags_tag within,
        others, meant]
      rfl
    · rw [form, eraseTags_append fun c member => (not_delimiter_of_mem_escape member).1,
        unescape?_escape_append, others, meant]
      rfl

end CodeListing.Markup
