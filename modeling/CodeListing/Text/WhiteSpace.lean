/-!
# White space

The characters of the Unicode property `White_Space`, and the two ways in which text is cut at them:
`trim` takes them off both ends, `words` keeps what stands between them.

Words are also told by what stands around them.  A word of a text reaches from white space to white
space; `LastWord` says this of the last one, without cutting the text into pieces.  `Trimmed` says
in the same way what is left of a text between the white space at its ends, which may be several
words.
-/

namespace CodeListing.Text

/-- Whether `c` has the property `White_Space`. -/
def isWhiteSpace (c : Char) : Bool :=
  c == ' ' || ('\t' ≤ c && c ≤ '\r') || c == '\u0085' || c == '\u00a0' || c == '\u1680' ||
    ('\u2000' ≤ c && c ≤ '\u200a') || c == '\u2028' || c == '\u2029' || c == '\u202f' ||
    c == '\u205f' || c == '\u3000'

/-- The text without the white space at its start. -/
def trimStart (cs : List Char) : List Char := cs.dropWhile isWhiteSpace

/-- The text without the white space at its end. -/
def trimEnd (cs : List Char) : List Char := (trimStart cs.reverse).reverse

/-- The text without the white space at its two ends. -/
def trim (cs : List Char) : List Char := trimEnd (trimStart cs)

/-- The longest stretches of the text that hold no white space, in order. -/
def words (cs : List Char) : List (List Char) :=
  (cs.splitOnP isWhiteSpace).filter (!·.isEmpty)

/-! ## Words by what stands around them -/

/-- Some characters, and no white space among them. -/
def IsWord (text : List Char) : Prop := text ≠ [] ∧ ∀ c ∈ text, isWhiteSpace c = false

-- `List.all` keeps to the characters of the text, where other instances go through all there are
instance (text : List Char) : Decidable (IsWord text) :=
  decidable_of_iff (text ≠ [] ∧ text.all (!isWhiteSpace ·) = true) (by simp [IsWord])

/-- The word stands in the text with nothing but white space behind it, and if there is something in
front of it, this ends in white space. -/
structure LastWord (word text : List Char) : Prop where
  isWord : IsWord word
  placed : ∃ before behind, text = before ++ (word ++ behind) ∧
    (∀ c ∈ before.getLast?, isWhiteSpace c = true) ∧ ∀ c ∈ behind, isWhiteSpace c = true

/-- The text is `inner` with nothing but white space around it, and `inner` has none at its ends. -/
structure Trimmed (text inner : List Char) : Prop where
  placed : ∃ before behind, text = before ++ (inner ++ behind) ∧
    (∀ c ∈ before, isWhiteSpace c = true) ∧ ∀ c ∈ behind, isWhiteSpace c = true
  starts : ∀ c ∈ inner.head?, isWhiteSpace c = false
  ends : ∀ c ∈ inner.getLast?, isWhiteSpace c = false

/-! ## Texts with little white space -/

/-- There is no white space in the text. -/
def Unspaced (text : List Char) : Prop := ∀ c ∈ text, isWhiteSpace c = false

/-- There is no white space in the text but blanks. -/
def SpacedByBlanks (text : List Char) : Prop := ∀ c ∈ text, isWhiteSpace c = false ∨ c = ' '

instance (text : List Char) : Decidable (Unspaced text) :=
  decidable_of_iff (text.all (!isWhiteSpace ·) = true) (by simp [Unspaced])

instance (text : List Char) : Decidable (SpacedByBlanks text) :=
  decidable_of_iff (text.all (fun c => !isWhiteSpace c || c == ' ') = true)
    (by simp [SpacedByBlanks])

/-- The text without its white space. -/
def unspaced (text : List Char) : List Char := text.filter (!isWhiteSpace ·)

end CodeListing.Text
