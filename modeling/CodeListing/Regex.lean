import CodeListing.Text.Letters
import CodeListing.Text.Utf8

/-!
# Regular expressions with groups

There are several ways to read a text by a regular expression.  `paths` lists them in the order in
which a search that goes back on its choices tries them: a repetition would rather go on, an option
would rather be taken, and of two choices the later one is given up first.  `search?` takes the
first of them at the leftmost place that has one.

A group notes where the text lies that was read by it, in bytes of the whole text.  What was noted
on a way that is given up is forgotten with it.
-/

namespace CodeListing

/-- What the beginning of a text may look like. -/
inductive Regex
  /-- Nothing. -/
  | empty
  /-- A character of a class. -/
  | one (member : Char → Bool)
  | seq (first second : Regex)
  /-- The expression, or nothing. -/
  | optional (r : Regex)
  /-- The expression any number of times. -/
  | many (r : Regex)
  /-- The expression, whose text is that of a group. -/
  | capture (number : Nat) (r : Regex)

namespace Regex

/-- A place in a text, with the spans that were noted up to there. -/
structure Place where
  before : List Char
  rest : List Char
  groups : Nat → Option (Nat × Nat)

namespace Place

/-- The whole text. -/
def text (place : Place) : List Char := place.before ++ place.rest

/-- The offset of the place, in bytes. -/
def offset (place : Place) : Nat := Text.byteLength place.before

/-- The place with the span from `start` on noted for a group. -/
def close (place : Place) (number : Nat) (start : Place) : Place :=
  { place with
    groups := fun n => if n = number then some (start.offset, place.offset) else place.groups n }

end Place

/-- The expression one or more times. -/
def plus (r : Regex) : Regex := seq r (many r)

/-- The letters, none of them a capital, in any case. -/
def caseless : (letters : List Char) → Regex
  | [] => empty
  | l :: letters => seq (one fun c => Text.foldCase c == l) (caseless letters)

/-- The characters of a word, which holds no capital, in any case. -/
def word (letters : String) : Regex := caseless letters.toList

/-- Where `step` leads when it is repeated, the more often the better.  After a step that reads
nothing there is no other. -/
def repetitions (step : Place → List Place) (start : Place) : List Place :=
  ((step start).flatMap fun stop =>
    if stop.rest.length < start.rest.length then repetitions step stop else [stop]) ++ [start]
termination_by start.rest.length

/-- The places where the expression can leave off, the preferred one first. -/
def paths : Regex → Place → List Place
  | empty, start => [start]
  | one member, start =>
    match start.rest with
    | [] => []
    | c :: rest => if member c then [⟨start.before ++ [c], rest, start.groups⟩] else []
  | seq first second, start => (paths first start).flatMap (paths second)
  | optional r, start => paths r start ++ [start]
  | many r, start => repetitions (paths r) start
  | capture number r, start => (paths r start).map (·.close number start)

/-- Where the expression leaves off if it is tried at one place of the text after the other,
`before` being what stands in front of them. -/
def searchFrom (r : Regex) (before : List Char) : (text : List Char) → Option Place
  | [] => (r.paths ⟨before, [], fun _ => none⟩).head?
  | c :: text =>
    match (r.paths ⟨before, c :: text, fun _ => none⟩).head? with
    | some stop => some stop
    | none => searchFrom r (before ++ [c]) text

/-- Where the expression leaves off at the leftmost place of the text that it can be read from. -/
def search? (r : Regex) (text : List Char) : Option Place := searchFrom r [] text

/-- Whether a line ends at the place: nothing follows, or a `\n`. -/
def Place.endsLine (place : Place) : Bool := place.rest.head?.all (· == '\n')

/-- What comes of the attempts at one place of the text after the other, the first that succeeds,
`before` being what stands in front of them. -/
def firstFrom (attempt : Place → Option Place) (before : List Char) :
    (text : List Char) → Option Place
  | [] => attempt ⟨before, [], fun _ => none⟩
  | c :: text =>
    match attempt ⟨before, c :: text, fun _ => none⟩ with
    | some stop => some stop
    | none => firstFrom attempt (before ++ [c]) text

/-- Where the expression leaves off at the leftmost place of the text from which it can be read up
to the end of a line. -/
def searchLine? (r : Regex) (text : List Char) : Option Place :=
  firstFrom (fun start => (r.paths start).find? Place.endsLine) [] text

end Regex

end CodeListing
