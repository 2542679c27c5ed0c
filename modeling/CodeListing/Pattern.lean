import CodeListing.Text.Letters

/-!
# Patterns of text

A `Pattern` says what the beginning of a text may look like and what is made of it.  It is put
together from runs of characters, words in any case, options and repetitions; with `do`, one pattern
follows another.

`scan` reads a text by a pattern without ever going back: a run takes all the characters that it
may, an option is taken if it can be, a repetition goes on as long as it can.  `find?` looks for the
leftmost place where this succeeds.  A search that does go back on its choices is the subject of
`CodeListing.Regex`.
-/

namespace CodeListing

/-- What a text may begin with, and what is made of that. -/
inductive Pattern : Type → Type 1
  /-- Nothing is read. -/
  | pure {α : Type} (a : α) : Pattern α
  /-- One pattern after the other. -/
  | bind {α β : Type} (p : Pattern α) (next : α → Pattern β) : Pattern β
  /-- Characters of a class, possibly none. -/
  | run (member : Char → Bool) : Pattern (List Char)
  /-- One or more characters of a class. -/
  | run1 (member : Char → Bool) : Pattern (List Char)
  /-- The characters of a word, which holds no capital, in any case. -/
  | word (letters : String) : Pattern Unit
  /-- The pattern, or nothing. -/
  | optional {α : Type} (p : Pattern α) : Pattern (Option α)
  /-- The pattern any number of times. -/
  | many {α : Type} (p : Pattern α) : Pattern (List α)
  /-- Characters of a class up to the end of a line: the end of the text, or a place in front of a
  `\n`. -/
  | lineEnd (member : Char → Bool) : Pattern Unit

namespace Pattern

variable {α β : Type}

instance : Monad Pattern where
  pure := .pure
  bind := .bind

/-- The pattern one or more times. -/
def many1 (p : Pattern α) : Pattern (List α) := do
  let a ← p
  let as ← many p
  return a :: as

/-- The text behind the letters, if it begins with them in any case. -/
def dropCaseless? : (letters : List Char) → (text : List Char) → Option (List Char)
  | [], text => some text
  | _ :: _, [] => none
  | l :: letters, c :: text => if Text.foldCase c = l then dropCaseless? letters text else none

/-- What `step` reads again and again, at most `budget` times, behind what it has read `before`, and
the text that is left. -/
def repeated (step : List Char → Option (α × List Char)) :
    (budget : Nat) → (before : List α) → List Char → List α × List Char
  | 0, before, text => (before.reverse, text)
  | budget + 1, before, text =>
    match step text with
    | none => (before.reverse, text)
    | some (a, rest) => repeated step budget (a :: before) rest

/-- Reads the text by the pattern, with the longest runs and without going back.  The answer holds
what was read and the rest of the text. -/
def scan : {α : Type} → Pattern α → List Char → Option (α × List Char)
  | _, .pure a, text => some (a, text)
  | _, .bind p next, text =>
    match scan p text with
    | some (a, rest) => scan (next a) rest
    | none => none
  | _, .run member, text => some (text.span member)
  | _, .run1 member, text =>
    match text.span member with
    | ([], _) => none
    | (cs, rest) => some (cs, rest)
  | _, .word letters, text => (dropCaseless? letters.toList text).map ((), ·)
  | _, .optional p, text =>
    match scan p text with
    | some (a, rest) => some (some a, rest)
    | none => some (none, text)
  | _, .many p, text => some (repeated (scan p) text.length [] text)
  | _, .lineEnd member, text =>
    match text.span member with
    | (_, []) => some ((), [])
    | (cs, rest) =>
      if cs.contains '\n' then some ((), '\n' :: (cs.reverse.takeWhile (· != '\n')).reverse ++ rest)
      else none

/-- Looks for the first place of `text` where the pattern can be scanned, `before` being what stands
in front of it, backwards. -/
def findFrom (p : Pattern α) (before : List Char) : (text : List Char) → Option (List Char × α)
  | [] => (p.scan []).map fun (a, _) => (before.reverse, a)
  | c :: text =>
    match p.scan (c :: text) with
    | some (a, _) => some (before.reverse, a)
    | none => findFrom p (c :: before) text

/-- What the pattern reads at the leftmost place where it can be scanned, and the text in front of
it. -/
def find? (p : Pattern α) (text : List Char) : Option (List Char × α) := findFrom p [] text

end Pattern

end CodeListing
