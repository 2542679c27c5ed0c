import CodeListing.Proofs.StyleText
import CodeListing.Style.Shown

/-!
# Font styles as sets

Font styles are told apart by their bits (`ext_bit`), and what is put together has a bit exactly if
one of the parts has it (`bit_unionAll`).  Reading a text puts together the flags whose words stand
in it; no word holds a blank, so none stands across the blank between two texts
(`ofText_joined`).
-/

namespace CodeListing

namespace FontStyle

variable {f g : FontStyle}

/-! ## Bits -/

theorem has_iff_bit {flag : FontFlag} : f.Has flag ↔ f.bit flag.place = true := Iff.rfl

/-- A font style is its bits, those without a meaning included. -/
theorem ext_bit (same : ∀ place, f.bit place = g.bit place) : f = g := by
  rcases f with ⟨a⟩
  rcases g with ⟨b⟩
  rw [mk.injEq, ← UInt8.toNat_inj]
  exact Nat.eq_of_testBit_eq same

theorem bit_empty (place : Nat) : empty.bit place = false := Nat.zero_testBit place

theorem bit_union (f g : FontStyle) (place : Nat) :
    (f.union g).bit place = (f.bit place || g.bit place) := by
  rw [bit, union, UInt8.toNat_or, Nat.testBit_or]
  rfl

theorem bit_foldl_union (start : FontStyle) (styles : List FontStyle) (place : Nat) :
    (styles.foldl union start).bit place = (start.bit place || styles.any (·.bit place)) := by
  induction styles generalizing start with
  | nil => simp
  | cons f styles ih => rw [List.foldl_cons, ih, bit_union, List.any_cons, Bool.or_assoc]

/-- What is put together has a bit exactly if one of the parts has it. -/
theorem bit_unionAll (styles : List FontStyle) (place : Nat) :
    (unionAll styles).bit place = true ↔ ∃ f ∈ styles, f.bit place = true := by
  rw [unionAll, bit_foldl_union, bit_empty, Bool.false_or, List.any_eq_true]

/-- Including is having all the bits. -/
theorem includes_iff : f.includes g = true ↔ ∀ place, g.bit place = true → f.bit place = true := by
  have both (place : Nat) :
      (f.bits &&& g.bits).toNat.testBit place = (f.bit place && g.bit place) := by
    rw [UInt8.toNat_and, Nat.testBit_and]
    rfl
  rw [includes, beq_iff_eq]
  constructor
  · intro same place has
    have bits := both place
    rw [same, ← bit, has, Bool.and_true] at bits
    exact bits.symm
  · intro has
    rw [← UInt8.toNat_inj]
    apply Nat.eq_of_testBit_eq
    intro place
    rw [both, ← bit]
    cases inner : g.bit place with
    | false => rw [Bool.and_false]
    | true => rw [has place inner, Bool.and_true]

/-! ## Texts -/

/-- Reading a text puts together the flags whose words occur in it. -/
theorem ofText_eq (text : String) :
    ofText text = unionAll ((named.filter fun (name, _) =>
      Text.occursIn name.toList text.toList).map Prod.snd) := by
  rw [ofText, unionAll, List.foldl_map, List.foldl_filter]

/-- A bit is read of a text exactly if a word that stands for it is in the text. -/
theorem bit_ofText {text : String} {place : Nat} :
    (ofText text).bit place = true ↔
      ∃ entry ∈ named, entry.1.toList <:+: text.toList ∧ entry.2.bit place = true := by
  rw [ofText_eq, bit_unionAll]
  constructor
  · rintro ⟨flag, listed, has⟩
    obtain ⟨entry, kept, rfl⟩ := List.mem_map.1 listed
    obtain ⟨mem, stands⟩ := List.mem_filter.1 kept
    exact ⟨entry, mem, Text.occursIn_iff.1 stands, has⟩
  · rintro ⟨entry, mem, stands, has⟩
    refine ⟨entry.2, List.mem_map_of_mem (List.mem_filter.2 ⟨mem, ?_⟩), has⟩
    exact Text.occursIn_iff.2 stands

/-- Each flag is listed with its word, and no other entry has its bit. -/
theorem named_flag (flag : FontFlag) :
    (flag.word, only flag) ∈ named ∧ (only flag).bit flag.place = true ∧
      ∀ entry ∈ named, entry.2.bit flag.place = true → entry.1 = flag.word := by
  cases flag <;> decide

/-- The flags of a text are those whose words stand in it. -/
theorem has_ofText {text : String} {flag : FontFlag} :
    (ofText text).Has flag ↔ flag.NamedIn text := by
  obtain ⟨listed, own, only⟩ := named_flag flag
  rw [has_iff_bit, bit_ofText]
  constructor
  · rintro ⟨entry, mem, stands, has⟩
    rwa [only entry mem has] at stands
  · intro stands
    exact ⟨_, listed, stands, own⟩

/-- A word for a flag is not empty and holds no blank. -/
theorem named_words : ∀ entry ∈ named, entry.1.toList ≠ [] ∧ ' ' ∉ entry.1.toList := by
  decide

/-- A word stands in joined texts only if it stands in one of them. -/
theorem infix_joined {entry : String × FontStyle} (mem : entry ∈ named) {texts : List String} :
    entry.1.toList <:+: (" ".intercalate texts).toList ↔
      ∃ text ∈ texts, entry.1.toList <:+: text.toList := by
  obtain ⟨some, noBlank⟩ := named_words entry mem
  have blank : " ".toList = [' '] := rfl
  rw [String.toList_intercalate, blank, Text.infix_intercalate some noBlank]
  simp only [List.mem_map, exists_exists_and_eq_and]

/-- No bit comes up or is lost by joining texts. -/
theorem bit_ofText_joined {texts : List String} {place : Nat} :
    (ofText (" ".intercalate texts)).bit place = true ↔
      ∃ text ∈ texts, (ofText text).bit place = true := by
  rw [bit_ofText]
  constructor
  · rintro ⟨entry, listed, stands, has⟩
    obtain ⟨text, mem, inText⟩ := (infix_joined listed).1 stands
    exact ⟨text, mem, bit_ofText.2 ⟨entry, listed, inText, has⟩⟩
  · rintro ⟨text, mem, inText⟩
    obtain ⟨entry, listed, stands, has⟩ := bit_ofText.1 inText
    exact ⟨entry, listed, (infix_joined listed).2 ⟨text, mem, stands⟩, has⟩

/-- Joining texts puts together what is read of each. -/
theorem ofText_intercalate (texts : List String) :
    ofText (" ".intercalate texts) = unionAll (texts.map ofText) := by
  apply ext_bit
  intro place
  rw [Bool.eq_iff_iff, bit_ofText_joined, bit_unionAll]
  simp only [List.mem_map, exists_exists_and_eq_and]

/-! ## What is written -/

/-- The pair of styles in which both themes set just this font style. -/
def pair (f : FontStyle) : StylePair := ⟨{ font := some f }, { font := some f }⟩

/-- A font style is written as a pair of styles is that shows nothing else. -/
theorem css_pair (f : FontStyle) : f.pair.css = f.css := by
  simp [pair, StylePair.css, StylePair.font, Style.colorCss]

theorem shows_pair {flag : FontFlag} : f.pair.Shows flag ↔ f.Has flag := by
  constructor
  · rintro ⟨_, ⟨⟩, -, has⟩
    exact has
  · intro has
    exact ⟨f, rfl, rfl, has⟩

/-- What is written tells the flags, and nothing but them. -/
theorem css_eq_iff : f.css = g.css ↔ ∀ flag, f.Has flag ↔ g.Has flag := by
  rw [← css_pair f, ← css_pair g, StylePair.css_eq_iff_properties, StylePair.properties_eq_iff]
  constructor
  · intro alike flag
    rw [← shows_pair, ← shows_pair]
    exact alike.flags flag
  · intro same
    refine ⟨rfl, rfl, rfl, rfl, fun flag => ?_⟩
    rw [shows_pair, shows_pair, same]

/-- **Joined texts have the flags of each.**  What is read of texts with a blank between each two is
put together from what is read of each, and includes it: a flag is there exactly if its word stands
in one of them.  So neither their order nor their repetition counts, and what is written hangs on the
flags alone. -/
theorem ofText_joined (texts : List String) :
    let style := ofText (" ".intercalate texts)
    (∀ flag, (style.Has flag ↔ ∃ text ∈ texts, (ofText text).Has flag) ∧
      (style.Has flag ↔ ∃ text ∈ texts, flag.NamedIn text)) ∧
    style = unionAll (texts.map ofText) ∧
    (∀ text ∈ texts, style.includes (ofText text) = true) ∧
    (∀ others : List String, (∀ text, text ∈ others ↔ text ∈ texts) →
      ofText (" ".intercalate others) = style) ∧
    ∀ f g : FontStyle, f.css = g.css ↔ ∀ flag, f.Has flag ↔ g.Has flag := by
  intro style
  have joined (flag : FontFlag) : style.Has flag ↔ ∃ text ∈ texts, (ofText text).Has flag :=
    bit_ofText_joined
  refine ⟨fun flag => ⟨joined flag, ?_⟩, ofText_intercalate texts, fun text mem => ?_, ?_,
    fun f g => css_eq_iff⟩
  · simp only [joined, has_ofText]
  · rw [includes_iff]
    exact fun place has => bit_ofText_joined.2 ⟨text, mem, has⟩
  · intro others same
    apply ext_bit
    intro place
    rw [Bool.eq_iff_iff, bit_ofText_joined, bit_ofText_joined]
    simp only [same]

/-- Words that stand in longer ones, are repeated, or would stand across a blank. -/
theorem ofText_joined_longer :
    let texts := ["semibold", "under", "line bolditalic", "bold"]
    "semibold" ∈ texts ∧ (ofText (" ".intercalate texts)).includes (ofText "semibold") = true ∧
      (∀ text, text ∈ texts.reverse ++ texts ↔ text ∈ texts) ∧
      ofText (" ".intercalate (texts.reverse ++ texts)) = ofText (" ".intercalate texts) ∧
      ¬ (ofText (" ".intercalate texts)).Has .underline ∧
      (ofText (" ".intercalate texts)).css = "font-style:italic;font-weight:700;" := by
  intro texts
  obtain ⟨flags, union, includes, order, -⟩ := ofText_joined texts
  have mem : "semibold" ∈ texts := by decide
  have same : ∀ text, text ∈ texts.reverse ++ texts ↔ text ∈ texts := by simp
  refine ⟨mem, includes _ mem, same, order _ same, ?_, ?_⟩
  · rw [(flags .underline).1]
    decide
  · rw [union]
    decide

end FontStyle

end CodeListing
