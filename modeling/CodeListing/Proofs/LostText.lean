import CodeListing.Line.Comment.Grammar
import CodeListing.Proofs.DirectiveComment
import CodeListing.Proofs.Lines

/-!
# Only comments are cut off unbroken lines

`split_cuts` says of every text what is cut off it.  Nothing but a comment is, as long as the text
has no `\n` in it, and so of all lines of a block; where text behind a `\n` is lost, it is more than
white space.
-/

namespace CodeListing.DirectiveComment

/-! ## Comments in front of the end of a line -/

/-- A comment at the end of a line is read, and more of the white space behind it if there is a
later end of a line in it. -/
theorem Comment.scan_append {comment behind : List Char} {words : List (List Char)}
    (isComment : Comment comment words) (ends : EndsLine behind) :
    ∃ rest, reading.scan (comment ++ behind) = some (words, rest) ∧
      rest.length ≤ behind.length := by
  rcases isComment with ⟨isClosed, white⟩
  obtain ⟨rest, ended, short⟩ := Pattern.scan_lineEnd_append (by decide) white ends
  refine ⟨rest, ?_, short⟩
  rw [scan_reading, List.append_assoc, Pattern.scan_bind_of_some (scan_closed isClosed _),
    Pattern.scan_bind_of_some ended]
  rfl

/-- White space behind a comment belongs to it. -/
theorem Comment.append_white {comment space : List Char} {words : List (List Char)}
    (isComment : Comment comment words) (white : ∀ c ∈ space, Text.isWhiteSpace c = true) :
    Comment (comment ++ space) words := by
  rcases isComment with ⟨isClosed, outer⟩
  rw [List.append_assoc]
  refine .comment isClosed fun c mem => ?_
  rcases List.mem_append.1 mem with mem | mem
  · exact outer c mem
  · exact white c mem

section CommentAt

variable {text code comment behind : List Char} {words : List (List Char)}

/-- A comment at the end of a line is scanned, or a longer one from the same place on. -/
theorem CommentAt.scan (found : CommentAt text code comment words behind) :
    ∃ rest, reading.scan (comment ++ behind) = some (words, rest) ∧
      rest.length ≤ behind.length :=
  found.comment.scan_append found.ends

/-- What is scanned is a comment at the end of a line. -/
theorem exists_commentAt_of_scan {inside rest : List Char} (whole : text = code ++ inside)
    (scanned : reading.scan inside = some (words, rest)) :
    ∃ comment, inside = comment ++ rest ∧ CommentAt text code comment words rest := by
  obtain ⟨comment, rfl, isComment, ends⟩ := comment_of_scan scanned
  exact ⟨comment, rfl, whole, isComment, ends⟩

/-- Where nothing is read, there is no comment at the end of a line. -/
theorem scan_eq_none_iff_commentAt {inside : List Char} (whole : text = code ++ inside) :
    reading.scan inside = none ↔
      ∀ comment words behind, ¬ CommentAt text code comment words behind := by
  constructor
  · intro none comment words behind found
    obtain ⟨rest, scanned, -⟩ := found.scan
    rw [← List.append_cancel_left (whole.symm.trans found.text), none] at scanned
    cases scanned
  · intro absent
    refine Option.eq_none_iff_forall_ne_some.2 fun ⟨words, rest⟩ scanned => ?_
    obtain ⟨comment, -, found⟩ := exists_commentAt_of_scan whole scanned
    exact absent _ _ _ found

/-- Nothing is found exactly where no comment stands at the end of a line. -/
theorem find?_eq_none_iff :
    reading.find? text = none ↔
      ∀ code comment words behind, ¬ CommentAt text code comment words behind := by
  unfold Pattern.find?
  rw [Pattern.findFrom_eq_none_iff]
  constructor
  · intro none code comment words behind found
    have nowhere := none code _ found.text
    exact (scan_eq_none_iff_commentAt found.text).1 nowhere _ _ _ found
  · intro absent code inside whole
    exact (scan_eq_none_iff_commentAt whole).2 (absent code)

/-- What is found is the first comment at the end of a line, as long as it can be. -/
theorem find?_eq_some_iff :
    reading.find? text = some (code, words) ↔ ∃ comment lost,
      CommentAt text code comment words lost ∧
        (∀ code' comment' words' behind', CommentAt text code' comment' words' behind' →
          code.length ≤ code'.length) ∧
        ∀ comment' words' behind', CommentAt text code comment' words' behind' →
          lost.length ≤ behind'.length := by
  unfold Pattern.find?
  rw [Pattern.findFrom_eq_some_iff]
  constructor
  · rintro ⟨_, inside, lost, whole, rfl, scanned, least⟩
    obtain ⟨comment, same, found⟩ := exists_commentAt_of_scan whole scanned
    refine ⟨comment, lost, found, fun code' comment' words' behind' other => ?_,
      fun comment' words' behind' other => ?_⟩
    · by_contra shorter
      have nowhere := least code' _ other.text (Nat.lt_of_not_le shorter)
      exact (scan_eq_none_iff_commentAt other.text).1 nowhere _ _ _ other
    · obtain ⟨rest, scanned', short⟩ := other.scan
      rw [← List.append_cancel_left (whole.symm.trans other.text), scanned] at scanned'
      obtain ⟨-, rfl⟩ := Prod.mk.inj (Option.some.inj scanned')
      exact short
  · rintro ⟨comment, lost, found, least, -⟩
    obtain ⟨rest, scanned, -⟩ := found.scan
    refine ⟨code, comment ++ lost, rest, found.text, rfl, scanned, fun code' inside whole less => ?_⟩
    refine (scan_eq_none_iff_commentAt whole).2 fun comment' words' behind' other => ?_
    exact absurd (least _ _ _ _ other) (Nat.not_le_of_lt less)

end CommentAt

/-! ## What a text comes to -/

/-- Every text comes to something, and what is lost is determined with it. -/
theorem cutAt_split (line : String) : ∃ lost, CutAt line.toList (split line) lost := by
  rcases found : reading.find? line.toList with _ | ⟨code, words⟩
  · rw [split_of_find?_eq_none found]
    exact ⟨[], .absent (find?_eq_none_iff.1 found) rfl rfl rfl⟩
  · obtain ⟨comment, lost, here, least, longest⟩ := find?_eq_some_iff.1 found
    have lists : (words.map String.ofList).map String.toList = words := by simp [Function.comp_def]
    rw [split_of_find?_eq_some found]
    refine ⟨lost, @CutAt.comment _ _ _ comment ?_ ?_ ?_⟩
    · rwa [lists, String.toList_ofList]
    · rwa [String.toList_ofList]
    · rwa [String.toList_ofList]

variable {result : SplitLine} {lost : List Char}

/-- There is nothing else that a text could come to. -/
theorem CutAt.split_eq {line : String} (cut : CutAt line.toList result lost) :
    split line = result := by
  rcases cut with ⟨found, least, longest⟩ | ⟨absent, code, words, -⟩
  · rw [split_of_find?_eq_some (find?_eq_some_iff.2 ⟨_, lost, found, least, longest⟩)]
    simp [Function.comp_def]
  · rw [split_of_find?_eq_none (find?_eq_none_iff.2 absent), ← String.toList_inj.1 code, ← words]

variable {text : List Char}

/-- Only a comment is gone exactly where nothing is lost. -/
theorem CutAt.onlyCommentGone_iff (cut : CutAt text result lost) :
    OnlyCommentGone text result ↔ lost = [] := by
  constructor
  · intro gone
    rcases cut with ⟨found, -, longest⟩ | ⟨-, -, -, none⟩
    · rcases gone with ⟨code, -⟩ | ⟨comment, whole, isComment⟩
      · have same := found.text
        rw [code, List.self_eq_append_right] at same
        exact (List.append_eq_nil_iff.1 same).2
      · have found' : CommentAt text result.code.toList comment _ [] :=
          ⟨by rw [List.append_nil]; exact whole, isComment, .inl rfl⟩
        exact List.eq_nil_of_length_eq_zero (Nat.le_zero.1 (longest _ _ _ found'))
    · exact none
  · rintro rfl
    rcases cut with ⟨found, -, -⟩ | ⟨-, code, words, -⟩
    · refine .inr ⟨_, ?_, found.comment⟩
      rw [found.text, List.append_nil]
    · exact .inl ⟨code, words⟩

/-- What is lost stands behind the end of a line, and it is not all white space. -/
theorem CutAt.lost_eq (cut : CutAt text result lost) (some : lost ≠ []) :
    ∃ behind, lost = '\n' :: behind ∧ ∃ c ∈ behind, Text.isWhiteSpace c = false := by
  rcases cut with ⟨found, -, longest⟩ | ⟨-, -, -, none⟩
  · rcases found.ends with none | ⟨behind, rfl⟩
    · exact absurd none some
    · refine ⟨behind, rfl, ?_⟩
      by_contra white
      have all : ∀ c ∈ '\n' :: behind, Text.isWhiteSpace c = true := by
        refine List.forall_mem_cons.2 ⟨by decide, fun c mem => ?_⟩
        by_contra other
        exact white ⟨c, mem, Bool.eq_false_iff.2 other⟩
      have longer := found.comment.append_white all
      have found' : CommentAt text result.code.toList _ _ [] :=
        ⟨by rw [List.append_nil]; exact found.text, longer, .inl rfl⟩
      exact absurd (longest _ _ _ found') (Nat.not_succ_le_zero _)
  · exact absurd none some

/-- Only what was in the text is lost. -/
theorem CutAt.lost_mem (cut : CutAt text result lost) : ∀ c ∈ lost, c ∈ text := by
  intro c mem
  rcases cut with ⟨found, -, -⟩ | ⟨-, -, -, rfl⟩
  · rw [found.text]
    exact List.mem_append_right _ (List.mem_append_right _ mem)
  · cases mem

/-- Of a single line nothing is lost but its comment. -/
theorem onlyCommentGone_of_unbroken {line : String} (unbroken : '\n' ∉ line.toList) :
    OnlyCommentGone line.toList (split line) := by
  obtain ⟨lost, cut⟩ := cutAt_split line
  rw [cut.onlyCommentGone_iff]
  by_contra some
  obtain ⟨behind, rfl, -⟩ := cut.lost_eq some
  exact unbroken (cut.lost_mem '\n' List.mem_cons_self)

/-- **Only a comment is cut off an unbroken line.**  A text is cut at the first end of a line that
has a comment in front of it.  Nothing but a comment is gone exactly where nothing is lost behind
that end, and what is lost begins with a `\n` and is not all white space.  So only a comment is gone
from a text without `\n`, and from every line of a block. -/
theorem split_cuts (line : String) :
    (∀ result, split line = result ↔ ∃ lost, CutAt line.toList result lost) ∧
      (∀ lost, CutAt line.toList (split line) lost →
        (OnlyCommentGone line.toList (split line) ↔ lost = []) ∧
          (lost ≠ [] →
            ∃ behind, lost = '\n' :: behind ∧ ∃ c ∈ behind, Text.isWhiteSpace c = false)) ∧
      ('\n' ∉ line.toList → OnlyCommentGone line.toList (split line)) ∧
      ∀ infoLine content : String,
        line ∈ (CodeBlock.fenced infoLine content).lines ∨
            line ∈ (CodeBlock.indented content).lines →
          OnlyCommentGone line.toList (split line) := by
  refine ⟨fun result => ⟨?_, ?_⟩, fun lost cut => ⟨cut.onlyCommentGone_iff, cut.lost_eq⟩,
    onlyCommentGone_of_unbroken, fun infoLine content mem => ?_⟩
  · rintro rfl
    exact cutAt_split line
  · rintro ⟨lost, cut⟩
    exact cut.split_eq
  · have among : line ∈ CodeBlock.linesOf content := mem.elim id id
    obtain ⟨cs, member, rfl⟩ := List.mem_map.1 among
    refine onlyCommentGone_of_unbroken ?_
    rw [String.toList_ofList]
    exact (Text.unbroken_of_mem_lines member).2

/-- A line of a block with white space behind its comment. -/
theorem split_cuts_unbroken :
    let line := "a // [!code focus]\t"
    ('\n' ∉ line.toList ∧ OnlyCommentGone line.toList (split line)) ∧
      line ∈ (CodeBlock.fenced "c" "a // [!code focus]\t\nb").lines ∧
      ∃ lost, CutAt line.toList (split line) lost ∧ lost = [] := by
  intro line
  have unbroken : '\n' ∉ line.toList := by decide
  have among : line ∈ (CodeBlock.fenced "c" "a // [!code focus]\t\nb").lines := by decide +kernel
  obtain ⟨cuts, only, gone, block⟩ := split_cuts line
  obtain ⟨lost, cut⟩ := (cuts (split line)).1 rfl
  exact ⟨⟨unbroken, gone unbroken⟩, among, lost, cut, (only lost cut).1.1 (block _ _ (.inl among))⟩

/-- What stands behind the end of a line goes with the comment in front of it. -/
theorem not_onlyCommentGone_of_broken :
    let line := "a // [!code focus]\nb"
    split line = ⟨"a ", ["focus"]⟩ ∧ ¬ OnlyCommentGone line.toList (split line) := by
  intro line
  have taken : split line = ⟨"a ", ["focus"]⟩ := by decide +kernel
  refine ⟨taken, ?_⟩
  rw [taken]
  rintro (⟨code, -⟩ | ⟨comment, whole, isComment⟩)
  · exact absurd code (by decide)
  · have cut : line.toList = "a ".toList ++ "// [!code focus]\nb".toList := by decide
    obtain rfl := List.append_cancel_left (whole.symm.trans cut)
    have scanned := scan_comment isComment
    exact absurd scanned (by decide +kernel)

end CodeListing.DirectiveComment
