import CodeListing.Listing.Page
import CodeListing.Proofs.Nesting
import CodeListing.Proofs.Utf8

/-!
# No code is lost

Whoever takes the tags and the entities out of a highlighted block is left with its code, line by
line, with the numbers passed over in front of the lines that pass them over, and with the gutter
behind all.  It takes a tokenizer whose tokens tile the lines: their fragments are then the line,
nothing left out and nothing said twice (`Token.Tile.code_eq`).  A block shown as plain text is left
as its lines.
-/

namespace CodeListing

open Markup

/-! ## Fragments of tiled lines -/

section Tiles

open Text

/-- A span that stands between characters cuts out what is there. -/
theorem Token.fragment?_of_span {t : Token} {code : String} {before inside rest : List Char}
    (line : code.toList = before ++ (inside ++ rest)) (start : t.start = byteLength before)
    (stop : t.stop = byteLength before + byteLength inside) :
    t.fragment? code = some ⟨String.ofList inside, t.scopes⟩ := by
  rw [fragment?, line, start, stop, slice?_append, Option.map_some]

/-- What is left of a line is what the fragments of its other tokens hold. -/
theorem Token.Tile.fragments {code : String} {start : Nat} {tokens : List Token}
    (tile : Tile code.toList start tokens) {before behind : List Char}
    (line : code.toList = before ++ behind)
    (size : byteLength before = start) :
    (tokens.filterMap (Token.fragment? code)).flatMap (·.code.toList) = behind := by
  induction tile generalizing before behind with
  | done =>
    have nothing : byteLength behind = 0 := by
      rw [line, byteLength_append] at size
      omega
    rw [eq_nil_of_byteLength nothing]
    rfl
  | @token t tokens ordered _ last _ ih =>
    rw [line] at last
    obtain ⟨inside, rest, rfl, stop⟩ := last.behind (by omega)
    have next : code.toList = (before ++ inside) ++ rest := by rw [line, List.append_assoc]
    have others := ih next (by rw [stop, byteLength_append])
    rw [List.filterMap_cons_some (Token.fragment?_of_span line size.symm stop), List.flatMap_cons,
      others, String.toList_ofList]

/-- Tokens that tile a line from its first byte on give all of it. -/
theorem Token.Tile.code_eq {code : String} {tokens : List Token}
    (tile : Tile code.toList 0 tokens) :
    String.join ((tokens.filterMap (Token.fragment? code)).map (·.code)) = code := by
  have whole := tile.fragments (List.nil_append code.toList).symm rfl
  rw [← String.toList_inj, String.toList_join, List.flatMap_map, whole]

/-- A line that is not taken apart is one tile, or none if it is empty. -/
theorem Tokenizer.tile_plainTokens (line : String) :
    Token.Tile line.toList 0 (plainTokens line) := by
  unfold plainTokens
  split
  · next empty =>
    obtain rfl := String.isEmpty_iff.1 empty
    exact .done
  · exact .token (t := ⟨0, byteLength line.toList, [plainScope]⟩) (Nat.zero_le _)
      (isBoundary_zero _) (isBoundary_byteLength _) .done

end Tiles

/-! ## From markup to text -/

theorem content_element (name : String) (attributes : List (String × Value))
    (content : List Piece) :
    (element name attributes content).flatMap Piece.content = content.flatMap Piece.content := by
  simp [element, Piece.content]

theorem content_skippedLine (r : NumberRange) :
    (skippedLine r).flatMap Piece.content = r.readable.toList := by
  unfold skippedLine NumberRange.readable
  rw [content_element, List.flatMap_append, content_element]
  simp only [List.flatMap_cons, List.flatMap_nil, List.append_nil, Piece.content,
    String.toList_append, List.append_assoc]

theorem Fragment.content_markup (f : Fragment StylePair) :
    f.markup.flatMap Piece.content = f.code.toList := by
  rw [markup, styledCode, content_element]
  simp [Piece.content]

/-- Of a line its code is read, and in front of it the numbers that it passes over. -/
theorem ListingLine.content_markup (l : ListingLine StylePair) :
    l.markup.flatMap Piece.content = l.readable.toList := by
  have skipped : (l.note.skipped.flatMap skippedLine).flatMap Piece.content =
      (String.join (l.note.skipped.map NumberRange.readable)).toList := by
    simp only [List.flatMap_assoc, content_skippedLine, String.toList_join, List.flatMap_map]
  have code : (l.fragments.flatMap Fragment.markup).flatMap Piece.content =
      (String.join (l.fragments.map (·.code))).toList := by
    simp only [List.flatMap_assoc, Fragment.content_markup, String.toList_join, List.flatMap_map]
  rw [markup, List.flatMap_append, content_element, skipped, code, readable, LineNote.readable,
    String.toList_append]

theorem GutterRow.content_markup (row : GutterRow) :
    row.markup.flatMap Piece.content = row.readable.toList := by
  cases row with
  | number n =>
    rw [markup, content_element]
    simp [Piece.content, readable]
  | skipped r =>
    rw [markup, content_element]
    simp [Piece.content, readable]

/-- Of a listing its lines are read, and behind them the gutter if there is a number in it. -/
theorem Listing.content_markup (l : Listing StylePair) :
    l.markup.flatMap Piece.content =
      (String.join (l.lines.map ListingLine.readable) ++
        if l.anyNumbered then String.join (l.gutterRows.map GutterRow.readable)
        else "").toList := by
  have code : (l.lines.flatMap ListingLine.markup).flatMap Piece.content =
      (String.join (l.lines.map ListingLine.readable)).toList := by
    simp only [List.flatMap_assoc, ListingLine.content_markup, String.toList_join, List.flatMap_map]
  have gutter : l.gutter.flatMap Piece.content =
      (if l.anyNumbered then String.join (l.gutterRows.map GutterRow.readable) else "").toList := by
    unfold Listing.gutter gutterMarkup
    split
    · rw [content_element]
      simp only [List.flatMap_assoc, GutterRow.content_markup, String.toList_join, List.flatMap_map]
    · rfl
  rw [markup, content_element, List.flatMap_append, content_element, code, gutter,
    String.toList_append]

/-! ## From lines to a listing -/

namespace StyleCache

variable (stylist : Stylist) (c : StyleCache)

/-- Styling does not change any code. -/
theorem code_styleFragments (fragments : List (Fragment (List String))) :
    (c.styleFragments stylist fragments).1.map (·.code) = fragments.map (·.code) := by
  induction fragments generalizing c with
  | nil => rfl
  | cons f fragments ih => simp [styleFragments, ih]

theorem readable_styleLines (lines : List (ListingLine (List String))) :
    (c.styleLines stylist lines).1.map ListingLine.readable = lines.map ListingLine.readable := by
  induction lines generalizing c with
  | nil => rfl
  | cons l lines ih => simp [styleLines, ListingLine.readable, code_styleFragments, ih]

end StyleCache

namespace Transcript

variable {γ σ : Type} (tokenizer : Tokenizer γ σ) (grammar : γ) (fence : Fence)

/-- The tokens found in answer to a request tile the line that is asked about. -/
def Tiled (request : Request σ) : Prop :=
  ∀ tokens state, tokenizer.tokenize grammar request.code request.state = .ok (tokens, state) →
    Token.Tile request.code.toList 0 tokens

/-- Each line of a transcript that was not ended before the last of them is read as the line that it
came from. -/
theorem readable_fromLine (index : Nat) (progress : Progress) (state : Option σ)
    (lines : List String)
    (complete : (fromLine tokenizer grammar fence index progress state lines).failure = none) :
    let t := fromLine tokenizer grammar fence index progress state lines
    let notes := fence.notesFrom index progress lines
    notes.length = lines.length ∧ t.lines.map (·.note) = notes ∧
      ((∀ request ∈ t.requests, Tiled tokenizer grammar request) →
        t.lines.map ListingLine.readable = Fence.readableLines notes lines) := by
  induction lines generalizing index progress state with
  | nil => exact ⟨rfl, rfl, fun _ => rfl⟩
  | cons line lines ih =>
    rcases passed : progress.passLine fence index line with ⟨progress', e | note⟩
    · rw [fromLine_unknown tokenizer grammar fence lines passed] at complete
      cases complete
    · rcases answer : tokenizer.tokenize grammar (DirectiveComment.split line).code state with
        detail | ⟨tokens, state'⟩
      · rw [fromLine_failed tokenizer grammar fence lines passed answer] at complete
        cases complete
      · rw [fromLine_ok tokenizer grammar fence lines passed answer] at complete ⊢
        obtain ⟨length, notes, texts⟩ := ih (index + 1) progress' (some state') complete
        simp only [Fence.notesFrom, passed]
        refine ⟨?_, ?_, fun tiled => ?_⟩
        · rw [List.length_cons, List.length_cons, length]
        · rw [cons, List.map_cons, notes]
        · have first := tiled _ List.mem_cons_self tokens state' answer
          have others := texts fun request member => tiled request (List.mem_cons_of_mem _ member)
          rw [cons, List.map_cons, others, ListingLine.readable, first.code_eq]
          rfl

end Transcript

/-- The plain tokenizer leaves no part of a line out. -/
theorem Transcript.tiled_plain (languages : Option (List String)) (request : Request Unit) :
    Tiled (Tokenizer.plain languages) () request := by
  intro tokens state answer
  obtain ⟨rfl, -⟩ := Prod.mk.inj (Except.ok.inj answer)
  exact Tokenizer.tile_plainTokens request.code

namespace Highlighter

variable {γ σ : Type}

/-- Of a listing without a fault is read what the block says, if the tokens tile each line. -/
theorem readable_listing (h : Highlighter γ σ) (block : CodeBlock) (fence : Fence) (grammar : γ)
    (complete : (Transcript.ofLines h.tokenizer grammar fence block.lines).failure = none)
    (tiled : ∀ request ∈ (Transcript.ofLines h.tokenizer grammar fence block.lines).requests,
      Transcript.Tiled h.tokenizer grammar request) :
    (h.listing block fence grammar).markup.flatMap Piece.content =
      (fence.readable (h.listing block fence grammar).anyNumbered block.lines).toList := by
  obtain ⟨-, notes, texts⟩ :=
    Transcript.readable_fromLine h.tokenizer grammar fence 0 (.start fence.numbering) none
      block.lines complete
  have lines : (h.listing block fence grammar).lines.map ListingLine.readable =
      Fence.readableLines (fence.notes block.lines) block.lines := by
    rw [← Fence.notes] at texts
    exact (h.styles.readable_styleLines h.stylist _).trans (texts tiled)
  have rows : (h.listing block fence grammar).gutterRows =
      (fence.notes block.lines).flatMap LineNote.gutter := by
    have sameNotes := (h.styles.note_styleLines h.stylist
      (Transcript.ofLines h.tokenizer grammar fence block.lines).lines).trans notes
    rw [← Fence.notes] at sameNotes
    rw [← sameNotes, List.flatMap_map]
    rfl
  rw [Listing.content_markup, lines, rows, Fence.readable]

/-- **No code is lost.**  Without its tags and entities, a highlighted block is the code of its
lines as it is without directives, each line behind a notice of the numbers that it passes over, and
then the gutter if there is one.  A block shown as plain text is its lines. -/
theorem render_readable :
    (∀ (h : Highlighter γ σ) (block : CodeBlock) (out : String) (anyFocused anyNumbered : Bool),
      (h.render block out).outcome = .ok (.highlighted anyFocused anyNumbered) →
        ∃ fence grammar, h.plan block = .ok (fence, grammar) ∧
          (fence.notes block.lines).length = block.lines.length ∧
          ((∀ request ∈ (h.render block out).requests,
              Transcript.Tiled h.tokenizer grammar request) →
            ∃ text, (h.render block out).out = out ++ text ∧
              unescape? (eraseTags false text.toList) =
                some (fence.readable anyNumbered block.lines).toList)) ∧
      (∀ languages request, Transcript.Tiled (Tokenizer.plain languages) () request) ∧
      Tokenizer.plainTokens "" = [] ∧
      ∀ block : CodeBlock, unescape? (eraseTags false (Fallback.plain block).1.toList) =
        some ("\n".intercalate block.lines).toList := by
  refine ⟨?_, Transcript.tiled_plain, rfl, fun block => ?_⟩
  · intro h block out anyFocused anyNumbered shown
    obtain ⟨fence, grammar, planned, complete, -, numbered⟩ := h.plan_of_highlighted block out shown
    obtain ⟨-, requests, written⟩ := h.render_of_plan block out planned
    obtain ⟨length, -, -⟩ :=
      Transcript.readable_fromLine h.tokenizer grammar fence 0 (.start fence.numbering) none
        block.lines complete
    refine ⟨fence, grammar, planned, length, fun tiled => ⟨_, written complete, ?_⟩⟩
    rw [requests] at tiled
    rw [unescape?_eraseTags_toText (Listing.allSound_markup _),
      readable_listing h block fence grammar complete tiled, numbered]
  · have plain := unescape?_eraseTags_toText (Fallback.allSound_plainMarkup block)
    rw [Fallback.plainMarkup, content_element, content_element, Fallback.content_linePieces]
      at plain
    exact plain

/-- A line that passes numbers over, in a block whose tokens are its lines. -/
theorem render_readable_plain :
    let h : Highlighter Unit Unit :=
      { tokenizer := .plain none
        stylist := ⟨fun _ => [], fun _ => []⟩
        fallback := .plain
        config := {} }
    let block := CodeBlock.fenced "js:line-numbers=1" "a é < b // [!code line-numbers=5]\n\nc"
    (h.render block "").outcome = .ok (.highlighted false true) ∧
      (∀ request ∈ (h.render block "").requests, Transcript.Tiled h.tokenizer () request) ∧
      ∃ text, (h.render block "").out = "" ++ text ∧
        unescape? (eraseTags false text.toList) =
          some "Skipped lines 1 through 4 a é < b c1-4567".toList := by
  intro h block
  have planned : h.plan block = .ok (⟨"js", .from 1, [], none⟩, ()) := by decide +kernel
  have shown : (h.render block "").outcome = .ok (.highlighted false true) := by
    rw [(h.render_of_plan block "" planned).1]
    decide +kernel
  have tiled : ∀ request ∈ (h.render block "").requests, Transcript.Tiled h.tokenizer () request :=
    fun request _ => Transcript.tiled_plain none request
  obtain ⟨fence, grammar, planned', -, text⟩ := render_readable.1 h block "" false true shown
  obtain ⟨rfl, -⟩ := Prod.mk.inj (Except.ok.inj (planned.symm.trans planned'))
  have read : Fence.readable ⟨"js", .from 1, [], none⟩ true block.lines =
      "Skipped lines 1 through 4 a é < b c1-4567" := by decide +kernel
  rw [← read]
  exact ⟨shown, tiled, text tiled⟩

end Highlighter

end CodeListing
