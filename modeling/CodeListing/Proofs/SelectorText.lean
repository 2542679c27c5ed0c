import CodeListing.Proofs.Words
import CodeListing.Theme.Selector

/-!
# Selectors read back as they are written

`Selector.ofText?_normal` is the round trip of selectors in both directions.  A text is read word by
word from its end.  The text of a selector is followed there one ancestor at a time: each is one
word, or two if it is a parent (`Ancestor.inward`), and from these words it is read again
(`ancestorsOfWords_inward`).  In the other direction, what is read of any text has words of the text
for scopes, none of them a sign, and this is all that writing needs (`readable_of_ofText?`).
-/

namespace CodeListing

/-- The words of an ancestor from the last to the first. -/
def Ancestor.inward : Ancestor → List String
  | .anywhere scope => [scope]
  | .parent scope => [">", scope]

namespace Selector

/-- The words of a text from the last to the first, the order in which they are read. -/
def inwardWords (text : List Char) : List String := ((Text.words text).map String.ofList).reverse

/-! ## Reading the words of a selector -/

theorem ancestorsOfWords_cons (direct : Bool) {scope : String} (noSign : scope ≠ ">")
    (before : List String) :
    ancestorsOfWords direct (scope :: before) =
      (if direct then .parent scope else .anywhere scope) :: ancestorsOfWords false before := by
  rw [ancestorsOfWords, if_neg noSign]

theorem ancestorsOfWords_inward_append {ancestor : Ancestor} (noSign : ancestor.pattern ≠ ">")
    (before : List String) :
    ancestorsOfWords false (ancestor.inward ++ before) =
      ancestor :: ancestorsOfWords false before := by
  cases ancestor with
  | anywhere scope => exact ancestorsOfWords_cons false noSign before
  | parent scope => exact ancestorsOfWords_cons true noSign before

/-- The words of ancestors, from the innermost outwards, are read as these. -/
theorem ancestorsOfWords_inward {ancestors : List Ancestor}
    (noSigns : ∀ ancestor ∈ ancestors, ancestor.pattern ≠ ">") :
    ancestorsOfWords false (ancestors.flatMap Ancestor.inward) = ancestors := by
  induction ancestors with
  | nil => rfl
  | cons ancestor others ih =>
    obtain ⟨first, noSigns⟩ := List.forall_mem_cons.1 noSigns
    rw [List.flatMap_cons, ancestorsOfWords_inward_append first, ih noSigns]

/-- Signs that stand anywhere but behind a scope ask for nothing. -/
theorem pattern_ancestorsOfWords (direct : Bool) (before : List String) :
    (ancestorsOfWords direct before).map Ancestor.pattern = before.filter (· ≠ ">") := by
  induction before generalizing direct with
  | nil => rfl
  | cons word before ih =>
    by_cases sign : word = ">"
    · rw [ancestorsOfWords, if_pos sign, ih, List.filter_cons_of_neg (by simpa using sign)]
    · rw [ancestorsOfWords_cons direct sign, List.map_cons, ih,
        List.filter_cons_of_pos (by simpa using sign)]
      cases direct <;> rfl

/-! ## The words of what is written -/

/-- A word in front of white space is the last one read of the words from the end. -/
theorem inwardWords_append_cons {word : List Char} (isWord : Text.IsWord word) {space : Char}
    (white : Text.isWhiteSpace space = true) (behind : List Char) :
    inwardWords (word ++ space :: behind) = inwardWords behind ++ [String.ofList word] := by
  rw [inwardWords, isWord.words_append_cons white, List.map_cons, List.reverse_cons]
  rfl

theorem inwardWords_ancestor {ancestor : Ancestor} (isScope : IsScope ancestor.pattern)
    (behind : List Char) :
    inwardWords (ancestor.toText.toList ++ behind) = inwardWords behind ++ ancestor.inward := by
  have space : Text.isWhiteSpace ' ' = true := by decide
  cases ancestor with
  | anywhere scope =>
    have isWord : Text.IsWord scope.toList := isScope.isWord
    have text : (scope ++ " ").toList ++ behind = scope.toList ++ ' ' :: behind := by simp
    rw [Ancestor.toText, text, inwardWords_append_cons isWord space, String.ofList_toList]
    rfl
  | parent scope =>
    have isWord : Text.IsWord scope.toList := isScope.isWord
    have sign : Text.IsWord ['>'] := by decide
    have text : (scope ++ " > ").toList ++ behind =
        scope.toList ++ ' ' :: (['>'] ++ ' ' :: behind) := by simp
    rw [Ancestor.toText, text, inwardWords_append_cons isWord space,
      inwardWords_append_cons sign space, List.append_assoc, String.ofList_toList]
    rfl

/-- The words of ancestors are read as they have been written, from the end. -/
theorem inwardWords_ancestors {outward : List Ancestor}
    (areScopes : ∀ ancestor ∈ outward, IsScope ancestor.pattern) (behind : List Char) :
    inwardWords (outward.flatMap (·.toText.toList) ++ behind) =
      inwardWords behind ++ outward.reverse.flatMap Ancestor.inward := by
  induction outward with
  | nil => exact (List.append_nil _).symm
  | cons ancestor outward ih =>
    obtain ⟨first, areScopes⟩ := List.forall_mem_cons.1 areScopes
    rw [List.flatMap_cons, List.append_assoc, inwardWords_ancestor first, ih areScopes,
      List.reverse_cons, List.flatMap_append, List.flatMap_singleton, List.append_assoc]

section Readable

variable {s : Selector}

theorem Readable.target (readable : s.Readable) : IsScope s.target :=
  readable s.target (List.mem_append_right _ (List.mem_singleton_self _))

theorem Readable.ancestors (readable : s.Readable) :
    ∀ ancestor ∈ s.ancestors, IsScope ancestor.pattern := by
  intro ancestor mem
  exact readable _ (List.mem_append_left _ (List.mem_map_of_mem (List.mem_reverse.2 mem)))

/-- The words of a selector, from the end, are its target and those of its ancestors. -/
theorem Readable.inwardWords_toText (readable : s.Readable) :
    inwardWords s.toText.toList = s.target :: s.ancestors.flatMap Ancestor.inward := by
  have text : s.toText.toList =
      s.ancestors.reverse.flatMap (·.toText.toList) ++ s.target.toList := by
    rw [toText, String.toList_append, String.toList_join, List.flatMap_map]
  have target : inwardWords s.target.toList = [s.target] := by
    rw [inwardWords, readable.target.isWord.words_eq, List.map_singleton, String.ofList_toList]
    rfl
  have outward : ∀ ancestor ∈ s.ancestors.reverse, IsScope ancestor.pattern :=
    fun ancestor mem => readable.ancestors ancestor (List.mem_reverse.1 mem)
  rw [text, inwardWords_ancestors outward, target, List.reverse_reverse, List.singleton_append]

end Readable

/-! ## What is read -/

theorem ofText?_eq (text : String) :
    ofText? text =
      match inwardWords text.toList with
      | [] => none
      | target :: before =>
        if target = ">" then none else some ⟨target, ancestorsOfWords false before⟩ := rfl

/-- A selector is read if the last word is its target and the others make its ancestors. -/
theorem ofText?_eq_some_iff {text : String} {s : Selector} :
    ofText? text = some s ↔ s.target ≠ ">" ∧
      ∃ before, inwardWords text.toList = s.target :: before ∧
        s.ancestors = ancestorsOfWords false before := by
  obtain ⟨target, ancestors⟩ := s
  rw [ofText?_eq]
  cases inwardWords text.toList with
  | nil => simp
  | cons last before =>
    rw [Option.ite_none_left_eq_some, Option.some_inj, Selector.mk.injEq]
    constructor
    · rintro ⟨noSign, rfl, rfl⟩
      exact ⟨noSign, before, rfl, rfl⟩
    · rintro ⟨noSign, before', same, rfl⟩
      cases same
      exact ⟨noSign, rfl, rfl⟩

/-- No selector is read exactly if there is no word, or the last one is the sign for a parent. -/
theorem ofText?_eq_none_iff {text : String} :
    ofText? text = none ↔
      (∀ c ∈ text.toList, Text.isWhiteSpace c = true) ∨ Text.LastWord ['>'] text.toList := by
  rw [← Text.words_eq_nil_iff, ← Text.getLast?_words_eq_some_iff, ofText?_eq, inwardWords]
  cases Text.words text.toList using List.reverseRecOn with
  | nil => exact iff_of_true rfl (.inl rfl)
  | append_singleton before last =>
    have sign : String.ofList last = ">" ↔ last = ['>'] := String.ofList_inj
    rw [List.map_append, List.reverse_append, List.getLast?_concat, Option.some_inj, ← sign]
    simp

theorem ofText?_trim (text : List Char) :
    ofText? (String.ofList (Text.trim text)) = ofText? (String.ofList text) := by
  simp only [ofText?_eq, inwardWords, String.toList_ofList, Text.words_trim]

/-- A selector that can be written is read again from its text. -/
theorem Readable.ofText?_eq_self {s : Selector} (readable : s.Readable) :
    ofText? s.toText = some s := by
  have noSigns : ∀ ancestor ∈ s.ancestors, ancestor.pattern ≠ ">" :=
    fun ancestor mem => (readable.ancestors ancestor mem).noSign
  exact ofText?_eq_some_iff.2 ⟨readable.target.noSign, _, readable.inwardWords_toText,
    (ancestorsOfWords_inward noSigns).symm⟩

/-- The scopes of a selector are the words of its text, but for the signs. -/
theorem scopes_of_ofText? {text : String} {s : Selector} (read : ofText? text = some s) :
    s.scopes = ((Text.words text.toList).map String.ofList).filter (· ≠ ">") := by
  obtain ⟨noSign, before, words, ancestors⟩ := ofText?_eq_some_iff.1 read
  have outward : (Text.words text.toList).map String.ofList = (s.target :: before).reverse := by
    rw [← words, inwardWords, List.reverse_reverse]
  rw [outward, List.filter_reverse, List.filter_cons_of_pos (by simpa using noSign),
    ← pattern_ancestorsOfWords false, ← ancestors, List.reverse_cons, scopes, List.map_reverse]

/-- What is read can be written: its scopes are words, and none of them is the sign. -/
theorem readable_of_ofText? {text : String} {s : Selector} (read : ofText? text = some s) :
    s.Readable := by
  intro scope mem
  rw [scopes_of_ofText? read, List.mem_filter, List.mem_map] at mem
  obtain ⟨⟨word, found, rfl⟩, noSign⟩ := mem
  refine ⟨?_, by simpa using noSign⟩
  rw [String.toList_ofList]
  exact Text.isWord_of_mem_words found

/-- **Selectors read back as they are written.**  A selector whose scopes are words and no signs is
read of its text.  A text gives no selector exactly if it is white or its last word is the sign `>`;
what any other text gives has the words of the text for its scopes, save for the signs, and is read
again of its own text. -/
theorem ofText?_normal :
    (∀ s : Selector, s.Readable → ofText? s.toText = some s) ∧
      ∀ text : String,
        (ofText? text = none ↔
          (∀ c ∈ text.toList, Text.isWhiteSpace c = true) ∨ Text.LastWord ['>'] text.toList) ∧
        ∀ s, ofText? text = some s → s.Readable ∧ ofText? s.toText = some s ∧
          s.scopes = ((Text.words text.toList).map String.ofList).filter (· ≠ ">") := by
  refine ⟨fun s readable => readable.ofText?_eq_self, fun text => ⟨ofText?_eq_none_iff, ?_⟩⟩
  intro s read
  have readable := readable_of_ofText? read
  exact ⟨readable, readable.ofText?_eq_self, scopes_of_ofText? read⟩

/-- White space and signs of which only one is needed are gone when the selector is written. -/
theorem ofText?_normal_signs :
    let s : Selector := ⟨"string", [.parent "meta.function", .anywhere "source.js"]⟩
    let text := "> source.js\t meta.function > >  string\n"
    s.Readable ∧ ofText? text = some s ∧ s.toText = "source.js meta.function > string" ∧
      ofText? s.toText = some s ∧ s.scopes = ["source.js", "meta.function", "string"] := by
  intro s text
  have readable : s.Readable := by decide +kernel
  have read : ofText? text = some s := by decide +kernel
  have words : ((Text.words text.toList).map String.ofList).filter (· ≠ ">") =
      ["source.js", "meta.function", "string"] := by decide +kernel
  obtain ⟨-, -, scopes⟩ := (ofText?_normal.2 text).2 s read
  exact ⟨readable, read, by decide +kernel, ofText?_normal.1 s readable, scopes.trans words⟩

end Selector

end CodeListing
