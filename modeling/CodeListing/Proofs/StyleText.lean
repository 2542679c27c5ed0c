import CodeListing.Listing
import CodeListing.Proofs.ColorText
import CodeListing.Proofs.Nesting
import CodeListing.Proofs.Separators
import CodeListing.Style.Shown

/-!
# What the text of a style tells

`StylePair.css_shows` says that two pairs of styles are written alike exactly if they show the same.
What is written is a list of declarations, and a list of declarations can be told from its text
(`join_declarations_inj`).  Which of seven properties are declared, in a fixed order, and with which
values can be told from the list, since no two of them have the same name (`declared_inj`).
-/

namespace CodeListing

open Markup

/-! ## Declarations -/

/-- A property of a style sheet and its value. -/
structure Declaration where
  name : String
  value : String
  deriving DecidableEq, Repr

namespace Declaration

/-- The declaration as it is written. -/
def toText (d : Declaration) : String := d.name ++ ":" ++ d.value ++ ";"

/-- The parts of the declaration do not hold the signs that end them. -/
structure Clean (d : Declaration) : Prop where
  name : ':' ∉ d.name.toList
  value : ';' ∉ d.value.toList

/-- A declaration is its name up to the colon and its value up to the semicolon. -/
theorem toList_toText (d : Declaration) (behind : List Char) :
    d.toText.toList ++ behind = d.name.toList ++ ':' :: (d.value.toList ++ ';' :: behind) := by
  simp [toText]

theorem toText_ne_nil (d : Declaration) (behind : List Char) : d.toText.toList ++ behind ≠ [] := by
  rw [toList_toText]
  exact List.append_ne_nil_of_right_ne_nil _ (List.cons_ne_nil _ _)

/-- The first declaration can be told from what follows it. -/
theorem Clean.append_inj {d e : Declaration} (clean : d.Clean) (clean' : e.Clean)
    {behind behind' : List Char} (same : d.toText.toList ++ behind = e.toText.toList ++ behind') :
    d = e ∧ behind = behind' := by
  rw [toList_toText, toList_toText, Text.append_cons_inj clean.name clean'.name,
    Text.append_cons_inj clean.value clean'.value] at same
  obtain ⟨name, value, rest⟩ := same
  rcases d with ⟨dName, dValue⟩
  rcases e with ⟨eName, eValue⟩
  obtain rfl : dName = eName := String.toList_inj.1 name
  obtain rfl : dValue = eValue := String.toList_inj.1 value
  exact ⟨rfl, rest⟩

/-- Declarations can be told from their text. -/
theorem join_declarations_inj {ds es : List Declaration} (clean : ∀ d ∈ ds, d.Clean)
    (clean' : ∀ e ∈ es, e.Clean)
    (same : String.join (ds.map toText) = String.join (es.map toText)) : ds = es := by
  rw [← String.toList_inj, String.toList_join, String.toList_join, List.flatMap_map,
    List.flatMap_map] at same
  induction ds generalizing es with
  | nil =>
    cases es with
    | nil => rfl
    | cons e es => exact absurd same.symm (e.toText_ne_nil _)
  | cons d ds ih =>
    cases es with
    | nil => exact absurd same (d.toText_ne_nil _)
    | cons e es =>
      obtain ⟨first, others⟩ := List.forall_mem_cons.1 clean
      obtain ⟨first', others'⟩ := List.forall_mem_cons.1 clean'
      rw [List.flatMap_cons, List.flatMap_cons] at same
      obtain ⟨rfl, rest⟩ := first.append_inj first' same
      rw [ih others others' rest]

end Declaration

/-! ## Properties that may be left out -/

/-- The declarations of the properties that have a value. -/
def declared (properties : List (String × Option String)) : List Declaration :=
  properties.filterMap fun (name, value) => value.map (Declaration.mk name)

theorem declared_cons_none (name : String) (properties : List (String × Option String)) :
    declared ((name, none) :: properties) = declared properties := rfl

theorem declared_cons_some (name value : String) (properties : List (String × Option String)) :
    declared ((name, some value) :: properties) = ⟨name, value⟩ :: declared properties := rfl

theorem name_of_mem_declared {properties : List (String × Option String)} {d : Declaration}
    (mem : d ∈ declared properties) : d.name ∈ properties.map Prod.fst := by
  obtain ⟨⟨name, value⟩, listed, made⟩ := List.mem_filterMap.1 mem
  obtain ⟨value, rfl, rfl⟩ := Option.map_eq_some_iff.1 made
  exact List.mem_map_of_mem listed

/-- Where properties of different names are listed in a fixed order, their values can be told from
the declarations that are made. -/
theorem declared_inj {properties properties' : List (String × Option String)}
    (names : properties.map Prod.fst = properties'.map Prod.fst)
    (apart : (properties.map Prod.fst).Nodup)
    (same : declared properties = declared properties') : properties = properties' := by
  induction properties generalizing properties' with
  | nil => exact (List.map_eq_nil_iff.1 names.symm).symm
  | cons property others ih =>
    rcases property with ⟨name, value⟩
    obtain ⟨⟨name', value'⟩, others', rfl, first, rest⟩ := List.map_eq_cons_iff.1 names.symm
    obtain rfl : name' = name := first
    obtain ⟨absent, apart'⟩ := List.nodup_cons.1 apart
    have absent' : name' ∉ others'.map Prod.fst := rest ▸ absent
    -- a property that is left out on one side is not declared further down on the other
    cases value with
    | none =>
      cases value' with
      | none => rw [ih rest.symm apart' same]
      | some value' =>
        rw [declared_cons_none, declared_cons_some] at same
        exact absurd (name_of_mem_declared (same ▸ List.mem_cons_self)) absent
    | some value =>
      cases value' with
      | none =>
        rw [declared_cons_none, declared_cons_some] at same
        exact absurd (name_of_mem_declared (same ▸ List.mem_cons_self)) absent'
      | some value' =>
        rw [declared_cons_some, declared_cons_some] at same
        obtain ⟨head, tail⟩ := List.cons.inj same
        rw [ih rest.symm apart' tail, (Declaration.mk.inj head).2]

/-! ## Font styles -/

namespace FontStyle

/-- Whether the font style has the flag. -/
def flag (f : FontStyle) (flag : FontFlag) : Bool := f.bits.toNat.testBit flag.place

/-- The style that has just this flag. -/
def only : FontFlag → FontStyle
  | .bold => bold
  | .underline => underline
  | .italic => italic
  | .strikethrough => strikethrough

theorem includes_only (f : FontStyle) (flag : FontFlag) : f.includes (only flag) = f.flag flag := by
  have all : ∀ n < 256, ∀ flag : FontFlag,
      includes ⟨UInt8.ofNat n⟩ (only flag) = n.testBit flag.place := by
    intro n small flag
    cases flag <;> revert n <;> decide +kernel
  have one := all f.bits.toNat f.bits.toNat_lt flag
  rwa [UInt8.ofNat_toNat] at one

end FontStyle

/-- The value of the property for lines below and through the text. -/
def linesValue (below through : Bool) : Option String :=
  if below || through then
    some ((if below then " underline" else "") ++ (if through then " line-through" else ""))
  else
    none

/-- The two lines can be told from the value of their property. -/
theorem linesValue_inj {below through below' through' : Bool}
    (same : linesValue below through = linesValue below' through') :
    below = below' ∧ through = through' := by
  revert below through below' through'
  decide

/-- The properties by which flags are shown. -/
def flagProperties (flags : FontFlag → Bool) : List (String × Option String) :=
  [("font-style", if flags .italic then some "italic" else none),
    ("font-weight", if flags .bold then some "700" else none),
    ("text-decoration-line", linesValue (flags .underline) (flags .strikethrough))]

/-- The text of a font style is that of its declared properties. -/
theorem FontStyle.css_eq (f : FontStyle) :
    f.css = String.join ((declared (flagProperties f.flag)).map Declaration.toText) := by
  have italic := f.includes_only .italic
  have bold := f.includes_only .bold
  have underline := f.includes_only .underline
  have strikethrough := f.includes_only .strikethrough
  simp only [only] at italic bold underline strikethrough
  rw [css, italic, bold, underline, strikethrough, flagProperties]
  generalize f.flag .italic = i, f.flag .bold = b, f.flag .underline = u,
    f.flag .strikethrough = s
  revert i b u s
  decide +kernel

/-! ## Pairs of styles -/

/-- The properties by which the colors of a style are shown. -/
def colorProperties (variant : String) (s : Style) : List (String × Option String) :=
  [("--color-" ++ variant, s.foreground.map Color.toText),
    ("--bg-" ++ variant, s.background.map Color.toText)]

theorem Style.colorCss_eq (variant : String) (s : Style) :
    s.colorCss variant =
      String.join ((declared (colorProperties variant s)).map Declaration.toText) := by
  rcases s with ⟨foreground, background, font⟩
  cases foreground <;> cases background <;>
    simp [colorCss, colorProperties, declared, Declaration.toText]

namespace StylePair

/-- Whether the pair shows the flag. -/
def flag (s : StylePair) (flag : FontFlag) : Bool := s.font.any (·.flag flag)

/-- The flags that are written are those on which both themes agree, with all their bits. -/
theorem flag_iff {s : StylePair} {flag : FontFlag} : s.flag flag = true ↔ s.Shows flag := by
  unfold StylePair.flag font Shows FontStyle.Has
  split
  · next agree =>
    rw [← agree, Option.any_eq_true]
    exact exists_congr fun f => ⟨fun ⟨set, has⟩ => ⟨set, set, has⟩, fun ⟨set, _, has⟩ => ⟨set, has⟩⟩
  · next differ =>
    refine iff_of_false Bool.false_ne_true ?_
    rintro ⟨f, light, dark, -⟩
    exact differ (light.trans dark.symm)

/-- All the properties by which a pair is shown. -/
def properties (s : StylePair) : List (String × Option String) :=
  colorProperties "light" s.light ++ colorProperties "dark" s.dark ++ flagProperties s.flag

/-- The flags as they are written, if the themes agree on any. -/
theorem css_font (s : StylePair) :
    s.font.elim "" FontStyle.css =
      String.join ((declared (flagProperties s.flag)).map Declaration.toText) := by
  unfold StylePair.flag
  cases s.font with
  | none => rfl
  | some f => exact f.css_eq

/-- The whole text is that of all declared properties, in one fixed order. -/
theorem css_eq (s : StylePair) :
    s.css = String.join ((declared s.properties).map Declaration.toText) := by
  have fonts : s.css = s.light.colorCss "light" ++ s.dark.colorCss "dark" ++
      s.font.elim "" FontStyle.css := by
    rw [css]
    cases s.font <;> rfl
  rw [fonts, css_font, Style.colorCss_eq, Style.colorCss_eq, ← String.join_append,
    ← String.join_append, ← List.map_append, ← List.map_append]
  simp only [properties, declared, List.filterMap_append]

/-- All pairs are shown by the same properties, in the same order. -/
theorem names_properties (s : StylePair) :
    s.properties.map Prod.fst =
      ["--color-light", "--bg-light", "--color-dark", "--bg-dark", "font-style", "font-weight",
        "text-decoration-line"] := rfl

theorem clean_color {value : String} {color : Option Color}
    (written : color.map Color.toText = some value) : ';' ∉ value.toList := by
  obtain ⟨c, -, rfl⟩ := Option.map_eq_some_iff.1 written
  intro mem
  rcases Color.digit_of_mem_toText mem with sign | ⟨n, digit⟩
  · exact absurd sign (by decide)
  · have code : ';'.toNat = 59 := rfl
    rw [Color.hexDigit_iff] at digit
    omega

/-- No semicolon stands in the value of a flag. -/
theorem clean_flag {flags : FontFlag → Bool} {name value : String}
    (mem : (name, some value) ∈ flagProperties flags) : ';' ∉ value.toList := by
  have clean : ∀ i b u s : Bool, ∀ property ∈ [("font-style", if i then some "italic" else none),
      ("font-weight", if b then some "700" else none), ("text-decoration-line", linesValue u s)],
      ∀ value ∈ property.2, ';' ∉ value.toList := by
    decide +kernel
  exact clean _ _ _ _ _ mem value rfl

/-- All declarations of a pair are clean, so that their text is cut at the semicolons. -/
theorem clean_declared (s : StylePair) : ∀ d ∈ declared s.properties, d.Clean := by
  intro d mem
  constructor
  · have names : ∀ name ∈ s.properties.map Prod.fst, ':' ∉ name.toList := by
      rw [names_properties]
      decide
    exact names _ (name_of_mem_declared mem)
  · obtain ⟨⟨name, value⟩, listed, made⟩ := List.mem_filterMap.1 mem
    obtain ⟨value, rfl, rfl⟩ := Option.map_eq_some_iff.1 made
    simp only [properties, colorProperties, List.mem_append, List.mem_cons, List.not_mem_nil,
      or_false, Prod.mk.injEq] at listed
    rcases listed with (light | dark) | flags
    · rcases light with ⟨-, written⟩ | ⟨-, written⟩ <;> exact clean_color written.symm
    · rcases dark with ⟨-, written⟩ | ⟨-, written⟩ <;> exact clean_color written.symm
    · exact clean_flag flags

/-- The properties can be told from the text. -/
theorem css_eq_iff_properties {s t : StylePair} : s.css = t.css ↔ s.properties = t.properties := by
  constructor
  · intro same
    rw [css_eq, css_eq] at same
    have listed := Declaration.join_declarations_inj s.clean_declared t.clean_declared same
    have names : s.properties.map Prod.fst = t.properties.map Prod.fst := by
      rw [names_properties, names_properties]
    exact declared_inj names (by rw [names_properties]; decide) listed
  · intro same
    rw [css_eq, css_eq, same]

/-- The three properties of the font tell all four flags. -/
theorem flagProperties_inj {flags flags' : FontFlag → Bool}
    (same : flagProperties flags = flagProperties flags') : flags = flags' := by
  simp only [flagProperties, List.cons.injEq, Prod.mk.injEq, true_and, and_true] at same
  obtain ⟨italic, bold, lines⟩ := same
  obtain ⟨underline, strikethrough⟩ := linesValue_inj lines
  have told (value : String) (b b' : Bool) (same : (if b then some value else none) =
      if b' then some value else none) : b = b' := by
    cases b <;> cases b' <;> simp at same ⊢
  funext flag
  cases flag with
  | bold => exact told _ _ _ bold
  | underline => exact underline
  | italic => exact told _ _ _ italic
  | strikethrough => exact strikethrough

/-- The properties say what is shown. -/
theorem properties_eq_iff {s t : StylePair} : s.properties = t.properties ↔ s.ShowsAlike t := by
  have color := Option.map_injective Color.toText_injective
  constructor
  · intro same
    simp only [properties, colorProperties, List.cons_append, List.nil_append, List.cons.injEq,
      Prod.mk.injEq, true_and] at same
    obtain ⟨lightForeground, lightBackground, darkForeground, darkBackground, flags⟩ := same
    refine ⟨color lightForeground, color lightBackground, color darkForeground,
      color darkBackground, fun flag => ?_⟩
    rw [← flag_iff, ← flag_iff, flagProperties_inj flags]
  · rintro ⟨lightForeground, lightBackground, darkForeground, darkBackground, flags⟩
    have sameFlags : s.flag = t.flag := by
      funext flag
      rw [Bool.eq_iff_iff, flag_iff, flag_iff, flags]
    rw [properties, properties, colorProperties, colorProperties, colorProperties, colorProperties,
      lightForeground, lightBackground, darkForeground, darkBackground, sameFlags]

/-- A pair is bare if it shows what the empty pair shows. -/
theorem bare_iff {s : StylePair} : s.Bare ↔ s.ShowsAlike {} := by
  have none : ∀ flag, ¬ ({} : StylePair).Shows flag := by
    rintro flag ⟨f, set, -⟩
    cases set
  constructor
  · rintro ⟨lightForeground, lightBackground, darkForeground, darkBackground, flags⟩
    exact ⟨lightForeground, lightBackground, darkForeground, darkBackground,
      fun flag => iff_of_false (flags flag) (none flag)⟩
  · rintro ⟨lightForeground, lightBackground, darkForeground, darkBackground, flags⟩
    exact ⟨lightForeground, lightBackground, darkForeground, darkBackground,
      fun flag => mt (flags flag).1 (none flag)⟩

/-! ## The attribute of a fragment -/

/-- A fragment is written without an attribute if there is nothing to be written into it. -/
theorem toText_styledCode_eq_iff (css code : String) :
    toText (styledCode css code) = "<span>" ++ escape code ++ "</span>" ↔ css = "" := by
  constructor
  · intro bare
    by_contra styled
    have some : css.isEmpty = false := by simpa using styled
    -- the sixth character is a blank before an attribute, and the end of the tag without one
    have sixth := congrArg (fun text => text.toList[5]?) bare
    simp [styledCode, some, element, Piece.toText, attributeText] at sixth
  · rintro rfl
    simp [styledCode, element, Piece.toText, String.append_assoc]

/-- **The text of a pair of styles tells what is shown.**  Two pairs are written alike exactly if
their four colors and the flags on which their themes agree are the same.  Nothing is written, and a
fragment has no attribute for it, exactly if there is nothing to show; and whatever is written fits
into an attribute as it stands. -/
theorem css_shows :
    (∀ s t : StylePair, s.css = t.css ↔ s.ShowsAlike t) ∧
      ∀ s : StylePair, (s.css = "" ↔ s.Bare) ∧
        (∀ code, toText (styledCode s.css code) = "<span>" ++ escape code ++ "</span>" ↔ s.Bare) ∧
        '"' ∉ s.css.toList ∧ '\'' ∉ s.css.toList ∧ '<' ∉ s.css.toList ∧ '>' ∉ s.css.toList ∧
          '&' ∉ s.css.toList := by
  have alike (s t : StylePair) : s.css = t.css ↔ s.ShowsAlike t :=
    css_eq_iff_properties.trans properties_eq_iff
  refine ⟨alike, fun s => ?_⟩
  have empty : s.css = "" ↔ s.Bare := (alike s {}).trans bare_iff.symm
  have plain (c : Char) (special : isSpecial c = true) : c ∉ s.css.toList := by
    intro mem
    have ordinary := List.all_eq_true.1 s.isPlain_css c mem
    rw [special] at ordinary
    cases ordinary
  exact ⟨empty, fun code => (toText_styledCode_eq_iff s.css code).trans empty, plain _ rfl,
    plain _ rfl, plain _ rfl, plain _ rfl, plain _ rfl⟩

end StylePair

end CodeListing
