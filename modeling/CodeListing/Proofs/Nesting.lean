import CodeListing.Proofs.Highlighter
import CodeListing.Proofs.Markup

/-!
# What the reader of a page finds

A highlighted block is one element `pre` with one element `code` in it and, if numbers were asked
for, the gutter behind it; code and gutter hold elements `span` that are closed in order.  Nothing
that comes from outside, be it code, a language or a group, gets to be more than characters and
values.  So it is with blocks shown as plain text.
-/

namespace CodeListing

open Markup

/-! ## No special characters in what the library writes itself -/

/-- A color is written in digits behind a number sign. -/
theorem Color.isPlain_toText (c : Color) : isPlain c.toText := by
  have digit : ∀ n < 16, isSpecial (Text.hexDigit n).toUpper = false := by decide
  have pair : ∀ n : UInt8, ∀ d ∈ hexPair n, isSpecial d = false := by
    intro n d member
    have bound := n.toNat_lt
    simp only [hexPair, List.map_cons, List.map_nil, List.mem_cons, List.not_mem_nil, or_false]
      at member
    rcases member with rfl | rfl
    · exact digit _ (by omega)
    · exact digit _ (by omega)
  rw [isPlain, toText, String.toList_ofList, List.all_eq_true]
  intro d member
  rw [Bool.not_eq_true']
  simp only [List.mem_cons, List.mem_append] at member
  rcases member with rfl | ((red | green) | blue) | alpha
  · decide
  · exact pair _ d red
  · exact pair _ d green
  · exact pair _ d blue
  · split at alpha
    · exact pair _ d alpha
    · cases alpha

/-- What is written of the colors of a style is made of their names and digits. -/
theorem Style.isPlain_colorCss {variant : String} (plain : isPlain variant) (s : Style) :
    isPlain (s.colorCss variant) := by
  have declaration : ∀ (name : String) (c : Color), isPlain name →
      isPlain (name ++ variant ++ ":" ++ c.toText ++ ";") := by
    intro name c named
    simp only [isPlain_append, named, plain, c.isPlain_toText, Bool.true_and, Bool.and_true]
    decide
  rw [colorCss, isPlain_append, Bool.and_eq_true]
  constructor
  · cases s.foreground with
    | none => rfl
    | some c => exact declaration _ c (by decide)
  · cases s.background with
    | none => rfl
    | some c => exact declaration _ c (by decide)

theorem FontStyle.isPlain_css (f : FontStyle) : isPlain f.css := by
  simp only [css, isPlain_append, Bool.and_eq_true]
  refine ⟨⟨?_, ?_⟩, ?_⟩
  · split <;> decide
  · split <;> decide
  · split
    · simp only [isPlain_append, Bool.and_eq_true]
      refine ⟨⟨⟨by decide, ?_⟩, ?_⟩, by decide⟩ <;> (split <;> decide)
    · decide

/-- Whatever styles a pair has, they can stand in an attribute as they are. -/
theorem StylePair.isPlain_css (s : StylePair) : isPlain s.css := by
  have light := Style.isPlain_colorCss (by decide : isPlain "light") s.light
  have dark := Style.isPlain_colorCss (by decide : isPlain "dark") s.dark
  rw [css, isPlain_append, isPlain_append, light, dark]
  cases s.font with
  | none => rfl
  | some f => exact f.isPlain_css

/-- The classes of a line are words of the library's own. -/
theorem LineNote.isPlain_classes (n : LineNote) : isPlain n.classes := by
  simp only [classes, isPlain_append, Bool.and_eq_true]
  refine ⟨⟨by decide, ?_⟩, ?_⟩
  · cases n.mark <;> decide
  · split <;> decide

/-! ## Sound elements -/

/-- Only the code of a fragment is foreign, and it is escaped. -/
theorem allSound_styledCode {css : String} (plain : isPlain css) (code : String) :
    AllSound (styledCode css code) := by
  have text : AllSound [.text code] := by simp [AllSound, Piece.Sound]
  refine .element (by decide) ?_ text
  intro a member
  split at member
  · cases member
  · obtain rfl := List.mem_singleton.1 member
    exact ⟨(by decide : isName "style"), plain⟩

theorem Fragment.allSound_markup (f : Fragment StylePair) : AllSound f.markup :=
  allSound_styledCode f.tag.isPlain_css f.code

theorem allSound_skippedLine (r : NumberRange) : AllSound (skippedLine r) := by
  have icon : AllSound (element "span" [("class", .literal "skipped-lines-icon")] []) :=
    .element (by decide) (by decide) (by simp [AllSound])
  have words : AllSound [.literal "Skipped lines ", .number r.first, .literal " through ",
    .number r.last,
      .literal " "] := by
    simp only [AllSound, List.forall_mem_cons]
    exact ⟨by decide, trivial, by decide, trivial, by decide, by simp⟩
  exact .element (by decide) (by decide) (words.append icon)

theorem ListingLine.allSound_markup (l : ListingLine StylePair) : AllSound l.markup := by
  have code : AllSound (l.fragments.flatMap Fragment.markup) := .flatMap Fragment.allSound_markup _
  have classes : ∀ a ∈ [("class", Value.literal l.note.classes)], isName a.1 ∧ a.2.Sound := by
    simpa [Value.Sound] using ⟨(by decide : isName "class"), l.note.isPlain_classes⟩
  exact .append (.flatMap allSound_skippedLine _) (.element (by decide) classes code)

theorem GutterRow.allSound_markup (row : GutterRow) : AllSound row.markup := by
  cases row with
  | number n =>
    have number : AllSound [.number n] := by simp [AllSound, Piece.Sound]
    exact .element (by decide) (by simp) number
  | skipped r =>
    have range : AllSound [.number r.first, .literal "-", .number r.last] := by
      simp only [AllSound, List.forall_mem_cons]
      exact ⟨trivial, by decide, trivial, by simp⟩
    exact .element (by decide) (by decide) range

theorem Listing.allSound_gutter {α : Type} (l : Listing α) : AllSound l.gutter := by
  unfold gutter
  split
  · exact .element (by decide) (by decide) (.flatMap GutterRow.allSound_markup _)
  · simp [AllSound]

/-- The language and the group come from the info string, and are escaped in their attributes. -/
theorem listingAttributes_sound (language : String) (group : Option String) (anyFocused : Bool) :
    ∀ a ∈ listingAttributes language group anyFocused, isName a.1 ∧ a.2.Sound := by
  simp only [listingAttributes, List.forall_mem_cons]
  refine ⟨?_, ⟨(by decide : isName "data-lang"), trivial⟩, ?_⟩
  · cases anyFocused <;> decide
  · cases group with
    | none => simp
    | some group => simpa [Value.Sound] using (by decide : isName "data-group")

/-- Whatever a listing holds, its markup is sound. -/
theorem Listing.allSound_markup (l : Listing StylePair) : AllSound l.markup := by
  have code : AllSound (element "code" [] (l.lines.flatMap ListingLine.markup)) :=
    .element (by decide) (by simp) (.flatMap ListingLine.allSound_markup _)
  exact .element (by decide) (listingAttributes_sound _ _ _) (code.append l.allSound_gutter)

/-! ## Elements closed in order -/

theorem lexemes_element (name : String) (attributes : List (String × Value))
    (content : List Piece) :
    (element name attributes content).flatMap Piece.lexemes =
      Lexeme.element name (attributes.map fun (name, value) => (name, value.content))
        (content.flatMap Piece.lexemes) := by
  simp [element, Lexeme.element, Piece.lexemes]

namespace Markup.Nested

variable {name : String} {a b : List Lexeme}

theorem append (first : Nested name a) (second : Nested name b) : Nested name (a ++ b) := by
  induction first with
  | nil => exact second
  | char c _ ih => exact .char c ih
  | element attributes content _ _ ih =>
    rw [List.append_assoc]
    exact .element attributes content ih

theorem flatMap {α : Type} {f : α → List Lexeme} (each : ∀ a, Nested name (f a)) (as : List α) :
    Nested name (as.flatMap f) := by
  induction as with
  | nil => exact .nil
  | cons a as ih => exact (each a).append ih

theorem chars (cs : List Char) : Nested name (cs.map .char) := by
  induction cs with
  | nil => exact .nil
  | cons c cs ih => exact .char c ih

end Markup.Nested

/-- An element of the name nests if its content does. -/
theorem nested_element {name : String} (attributes : List (String × Value)) {content : List Piece}
    (within : Nested name (content.flatMap Piece.lexemes)) :
    Nested name ((element name attributes content).flatMap Piece.lexemes) := by
  rw [lexemes_element, ← List.append_nil (Lexeme.element _ _ _)]
  exact .element _ within .nil

theorem nested_skippedLine (r : NumberRange) :
    Nested "span" ((skippedLine r).flatMap Piece.lexemes) := by
  refine nested_element _ ?_
  rw [List.flatMap_append]
  refine .append ?_ (nested_element _ .nil)
  simp only [List.flatMap_cons, List.flatMap_nil, List.append_nil, Piece.lexemes]
  exact (Nested.chars _).append ((Nested.chars _).append ((Nested.chars _).append
    ((Nested.chars _).append (.chars _))))

theorem Fragment.nested_markup (f : Fragment StylePair) :
    Nested "span" (f.markup.flatMap Piece.lexemes) := by
  refine nested_element _ ?_
  simpa [Piece.lexemes] using Nested.chars _

/-- The code of a line is in spans that close in order, and so are the numbers passed over. -/
theorem ListingLine.nested_markup (l : ListingLine StylePair) :
    Nested "span" (l.markup.flatMap Piece.lexemes) := by
  rw [markup, List.flatMap_append, List.flatMap_assoc]
  refine .append (.flatMap nested_skippedLine _) (nested_element _ ?_)
  rw [List.flatMap_assoc]
  exact .flatMap Fragment.nested_markup _

theorem GutterRow.nested_markup (row : GutterRow) :
    Nested "span" (row.markup.flatMap Piece.lexemes) := by
  cases row with
  | number n =>
    refine nested_element _ ?_
    simpa [Piece.lexemes] using Nested.chars _
  | skipped r =>
    refine nested_element _ ?_
    simp only [List.flatMap_cons, List.flatMap_nil, List.append_nil, Piece.lexemes]
    exact (Nested.chars _).append ((Nested.chars _).append (.chars _))

/-- One element `pre`.  In it stand one element `code` and, if there are numbers, the gutter; in
both of them there are elements `span` and nothing else but characters. -/
inductive Listing.Framed (anyNumbered : Bool) : List Lexeme → Prop
  | intro (attributes : List (String × String)) {code rows : List Lexeme} :
      Nested "span" code → Nested "span" rows →
      Framed anyNumbered (Lexeme.element "pre" attributes (Lexeme.element "code" [] code ++
        if anyNumbered then
          Lexeme.element "div" [("class", "line-numbers"), ("aria-hidden", "true")] rows
        else []))

/-- A listing is one frame around its code and, if it has one, its gutter. -/
theorem Listing.framed_markup (l : Listing StylePair) :
    Framed l.anyNumbered (l.markup.flatMap Piece.lexemes) := by
  have code : Nested "span" ((l.lines.flatMap ListingLine.markup).flatMap Piece.lexemes) := by
    rw [List.flatMap_assoc]
    exact .flatMap ListingLine.nested_markup _
  have rows : Nested "span" ((l.gutterRows.flatMap GutterRow.markup).flatMap Piece.lexemes) := by
    rw [List.flatMap_assoc]
    exact .flatMap GutterRow.nested_markup _
  have gutter : l.gutter.flatMap Piece.lexemes =
      if l.anyNumbered then
        Lexeme.element "div" [("class", "line-numbers"), ("aria-hidden", "true")]
          ((l.gutterRows.flatMap GutterRow.markup).flatMap Piece.lexemes)
      else [] := by
    unfold Listing.gutter gutterMarkup
    split
    · rw [lexemes_element]
      rfl
    · rfl
  rw [markup, lexemes_element, List.flatMap_append, lexemes_element, gutter]
  exact .intro _ code rows

/-! ## Blocks shown as plain text -/

namespace Fallback

theorem content_linePieces (lines : List String) :
    (linePieces lines).flatMap Piece.content = ("\n".intercalate lines).toList := by
  fun_induction linePieces lines with
  | case1 => rfl
  | case2 line => simp [Piece.content]
  | case3 line lines more ih =>
    cases lines with
    | nil => exact absurd rfl more
    | cons next lines =>
      simp [Piece.content, ih]

theorem allSound_linePieces (lines : List String) : AllSound (linePieces lines) := by
  fun_induction linePieces lines with
  | case1 => simp [AllSound]
  | case2 line => simp [AllSound, Piece.Sound]
  | case3 line lines more ih =>
    simp only [AllSound, List.forall_mem_cons]
    exact ⟨trivial, (by decide : isPlain "\n"), ih⟩

/-- Lines in plain text are their characters, with `\n` between them. -/
theorem lexemes_linePieces (lines : List String) :
    (linePieces lines).flatMap Piece.lexemes = ("\n".intercalate lines).toList.map .char := by
  rw [← content_linePieces]
  fun_induction linePieces lines with
  | case1 => rfl
  | case2 line => simp [Piece.lexemes, Piece.content]
  | case3 line lines more ih => simp [Piece.lexemes, Piece.content, ih]

/-- The attributes of the element for code, as they are read. -/
def codeAttributes (b : CodeBlock) : List (String × String) :=
  b.info.toList.map fun info => ("class", "language-" ++ info)

/-- The word on the fence is foreign, and it is escaped in the class that names it. -/
theorem allSound_plainMarkup (b : CodeBlock) : AllSound (plainMarkup b) := by
  refine .element (by decide) (by simp) (.element (by decide) ?_ (allSound_linePieces _))
  cases b.info with
  | none => simp
  | some info => simpa [Value.Sound] using (by decide : isName "class")

/-- A block in plain text is one element for its code inside of another. -/
theorem lexemes_plainMarkup (b : CodeBlock) :
    (plainMarkup b).flatMap Piece.lexemes =
      Lexeme.element "pre" [] (Lexeme.element "code" (codeAttributes b)
        (("\n".intercalate b.lines).toList.map .char)) := by
  rw [plainMarkup, lexemes_element, lexemes_element, lexemes_linePieces, codeAttributes]
  cases b.info <;> rfl

end Fallback

/-! ## Blocks on a page -/

/-- **Nothing gets into the markup.**  What is put behind the output for a highlighted block is read
as the tags and characters of its listing, the frame of which does not depend on what the block
holds.  A block shown as plain text is read as its lines in an element for code. -/
theorem Highlighter.render_wellNested {γ σ : Type} :
    (∀ (h : Highlighter γ σ) (block : CodeBlock) (out : String) (anyFocused anyNumbered : Bool),
      (h.render block out).outcome = .ok (.highlighted anyFocused anyNumbered) →
        ∃ fence grammar, h.plan block = .ok (fence, grammar) ∧ ∃ text,
          (h.render block out).out = out ++ text ∧
          Reads text ((h.listing block fence grammar).markup.flatMap Piece.lexemes) ∧
          Listing.Framed anyNumbered
            ((h.listing block fence grammar).markup.flatMap Piece.lexemes)) ∧
      ∀ block : CodeBlock, Reads (Fallback.plain block).1
        (Lexeme.element "pre" [] (Lexeme.element "code" (Fallback.codeAttributes block)
          (("\n".intercalate block.lines).toList.map .char))) := by
  constructor
  · intro h block out anyFocused anyNumbered shown
    obtain ⟨fence, grammar, planned, complete, -, numbered⟩ := h.plan_of_highlighted block out shown
    obtain ⟨-, -, written⟩ := h.render_of_plan block out planned
    have framed := (h.listing block fence grammar).framed_markup
    rw [numbered] at framed
    exact ⟨fence, grammar, planned, _, written complete, reads_toText (Listing.allSound_markup _),
      framed⟩
  · intro block
    rw [← Fallback.lexemes_plainMarkup]
    exact reads_toText (Fallback.allSound_plainMarkup block)

/-- Quotes, a tag and an ampersand on the fence and in the code. -/
theorem Highlighter.render_wellNested_quoted :
    let h : Highlighter Unit Unit :=
      { tokenizer := .plain none
        stylist := ⟨fun _ => [{ foreground := some .white }], fun _ => []⟩
        fallback := .plain
        config := {} }
    let block := CodeBlock.fenced "a\"<&:line-numbers" "a < \"b\" // [!code line-numbers=9]"
    (h.render block "").outcome = .ok (.highlighted false true) ∧
      ∃ fence grammar, h.plan block = .ok (fence, grammar) ∧ ∃ text,
        (h.render block "").out = "" ++ text ∧
        Reads text ((h.listing block fence grammar).markup.flatMap Piece.lexemes) ∧
        Listing.Framed true ((h.listing block fence grammar).markup.flatMap Piece.lexemes) := by
  intro h block
  have planned : h.plan block = .ok (⟨"a", .disabled, [], none⟩, ()) := by decide +kernel
  have shown : (h.render block "").outcome = .ok (.highlighted false true) := by
    rw [(h.render_of_plan block "" planned).1]
    decide +kernel
  exact ⟨shown, render_wellNested.1 h block "" false true shown⟩

end CodeListing
