import Mathlib.Data.List.Chain
import CodeListing.Line.Mark
import CodeListing.Line.Progress

/-!
# Lines and their history

What a line comes to hangs on the lines in front of it, but of those only on two directives: the
last one that has switched numbers on or off, and the last one that has set a number.
`Progress.behind` and `LineNote.behind` say this in closed form, of lines that are given by their
directives.  `Progress.passAll` goes through the lines one after the other.

Positions are exact natural numbers.  A word of 64 bits is made of one by `number?`, where there is
such a word.

A line is broken off at its first word that is no directive, and it is not counted.  What the words
in front of that one have done to the block stays done (`Progress.heeding`).  The line that comes
next is passed as if it had these words in front of its own (`LineNote.Resumes`); only what they
would say about a line itself is lost with the line that they were written for.
-/

namespace CodeListing

/-- The 64-bit number that `n` is, if it is one. -/
def number? (n : Nat) : Option UInt64 :=
  if h : n < UInt64.size then some (UInt64.ofNatLT n h) else none

/-- A line as its directives find it: the mark that it begins with, and the words of its comment. -/
structure WordedLine where
  mark : LineMark := .plain
  words : List String
  deriving DecidableEq, Repr

namespace WordedLine

/-- The directives among the words. -/
def directives (l : WordedLine) : List Directive := l.words.filterMap Directive.ofText?

/-- Whether every word is a directive. -/
def isKnown (l : WordedLine) : Bool := l.words.all fun word => (Directive.ofText? word).isSome

end WordedLine

namespace Directive

/-- The number that a directive sets. -/
def target? : Directive → Option UInt64
  | .numbered first => first
  | _ => none

/-- Whether a directive switches numbers on or off, if it does either. -/
def switch? : Directive → Option Bool
  | .unnumbered => some false
  | .numbered _ => some true
  | _ => none

/-- The numbers that directives set, one after the other. -/
def targets (directives : List Directive) : List UInt64 := directives.filterMap target?

/-- What directives say about numbers being shown, one after the other. -/
def switches (directives : List Directive) : List Bool := directives.filterMap switch?

theorem targets_cons (directive : Directive) (directives : List Directive) :
    targets (directive :: directives) = directive.target?.toList ++ targets directives := by
  cases found : directive.target? <;> simp [targets, found]

theorem switches_cons (directive : Directive) (directives : List Directive) :
    switches (directive :: directives) = directive.switch?.toList ++ switches directives := by
  cases found : directive.switch? <;> simp [switches, found]

theorem targets_append (a b : List Directive) : targets (a ++ b) = targets a ++ targets b :=
  List.filterMap_append

theorem switches_append (a b : List Directive) : switches (a ++ b) = switches a ++ switches b :=
  List.filterMap_append

end Directive

namespace LineNumbering

/-- Whether the first line is numbered. -/
def isOn : LineNumbering → Bool
  | .disabled => false
  | .from _ => true

/-- The number of the first line, shown or not. -/
def first : LineNumbering → Nat
  | .disabled => 0
  | .from first => first.toNat

/-- The directives on lines that set a number: the place of the line, and the number. -/
def jumps (lines : List (List Directive)) : List (Nat × UInt64) :=
  lines.zipIdx.flatMap fun (directives, place) => (Directive.targets directives).map (place, ·)

variable (numbering : LineNumbering) (lines : List (List Directive))

/-- The number at `place`, counted on from the last jump on the lines, or from the first number if
there is none. -/
def countedTo (place : Nat) : Nat :=
  match (jumps lines).getLast? with
  | none => numbering.first + place
  | some (line, target) => target.toNat + (place - line)

/-- The number that comes next behind the lines. -/
def due : Nat := numbering.countedTo lines lines.length

/-- Whether numbers are shown behind the lines. -/
def shownBehind : Bool := (Directive.switches lines.flatten).getLast?.getD numbering.isOn

/-- The number of the line at `place`, shown or not. -/
def position (place : Nat) : Nat := numbering.countedTo (lines.take (place + 1)) place

/-- Whether the line at `place` shows its number. -/
def showsAt (place : Nat) : Bool := numbering.shownBehind (lines.take (place + 1))

/-- Whether each number that a directive sets is at least the one that would come next. -/
def NeverBack : Prop :=
  ∀ place (h : place < lines.length),
    (numbering.due (lines.take place) ::
      (Directive.targets lines[place]).map UInt64.toNat).IsChain (· ≤ ·)

end LineNumbering

namespace NumberRange

/-- The numbers of the range, from the first to the last. -/
def numbers (r : NumberRange) : List Nat :=
  List.range' r.first.toNat (r.last.toNat + 1 - r.first.toNat)

/-- The first and the last number of the range. -/
def ends (r : NumberRange) : Nat × Nat := (r.first.toNat, r.last.toNat)

/-- The ranges left out where one number after the other is set, and `next` would have come
first. -/
def gaps (next : Option UInt64) : (targets : List UInt64) → List NumberRange
  | [] => []
  | target :: targets => (next.bind (gap? · target)).toList ++ gaps (some target) targets

end NumberRange

/-- The two ends of the ranges left out where one number after the other is set, and `next` would
have come first. -/
def gapEnds (next : Nat) : (targets : List UInt64) → List (Nat × Nat)
  | [] => []
  | target :: targets =>
    (if next < target.toNat then [(next, target.toNat - 1)] else []) ++
      gapEnds target.toNat targets

/-- What the directives of a line say about it, if the lines `before` stand in front of it. -/
def LineNote.behind (numbering : LineNumbering) (before : List (List Directive)) (mark : LineMark)
    (directives : List Directive) : LineNote where
  mark := directives.foldl LineMark.after mark
  focused := directives.contains .focus
  number :=
    if numbering.shownBehind (before ++ [directives]) then
      number? (numbering.countedTo (before ++ [directives]) before.length)
    else none
  skipped := NumberRange.gaps (number? (numbering.due before)) (Directive.targets directives)

namespace Progress

/-- What is carried behind the lines of a block. -/
def behind (numbering : LineNumbering) (lines : List (List Directive)) : Progress where
  numbered := numbering.shownBehind lines
  next := number? (numbering.due lines)
  anyFocused := lines.flatten.contains .focus
  anyNumbered := numbering.isOn || (Directive.switches lines.flatten).contains true

/-- The effect of lines one after the other, the first of them at the place `index`.  It ends at the
first line with an unknown word. -/
def passAll (p : Progress) (index : Nat) :
    (lines : List WordedLine) → Progress × Except Error (List LineNote)
  | [] => (p, .ok [])
  | line :: lines =>
    match p.pass index line.mark line.words with
    | (p, .error e) => (p, .error e)
    | (p, .ok note) =>
      let (p, notes) := p.passAll (index + 1) lines
      (p, notes.map (note :: ·))

end Progress

/-! ## Lines that are broken off -/

/-- The words are broken off at `word`, which is no directive; the words `ahead` of it stand for
`directives`. -/
structure BrokenOff (words ahead : List String) (directives : List Directive) (word : String) :
    Prop where
  split : ∃ others, words = ahead ++ word :: others
  known : ahead.map Directive.ofText? = directives.map some
  unknown : Directive.ofText? word = none

/-- What is carried on behind directives if no line is counted. -/
def Progress.heeding (p : Progress) (directives : List Directive) : Progress where
  numbered := (Directive.switches directives).getLast?.getD p.numbered
  next := (Directive.targets directives).getLast?.or p.next
  anyFocused := p.anyFocused || directives.contains .focus
  anyNumbered := p.anyNumbered || (Directive.switches directives).contains true

namespace LineNote

/-- `whole` is the note on a line with the directives `ahead` in front of its `own`, and `note` is
what is left of it without those.  The line begins with the mark `mark`, and `next` is the number
that comes next in front of all of them. -/
structure Without (mark : LineMark) (next : Option UInt64) (ahead own : List Directive)
    (whole note : LineNote) : Prop where
  number : note.number = whole.number
  own_mark : note.mark = mark.afterAll own
  mark : whole.mark = mark.afterAll (ahead ++ own)
  own_focus : note.focused = own.contains .focus
  focus : whole.focused = (ahead.contains .focus || note.focused)
  skipped : whole.skipped = NumberRange.gaps next (Directive.targets ahead) ++ note.skipped

/-- What comes of a line behind one that was broken off, against what comes of it (`joined`) if the
directives `ahead` are put in front of it: it is passed or fails as that is. -/
inductive Resumes (mark : LineMark) (next : Option UInt64) (ahead own : List Directive) :
    (joined result : Except Error LineNote) → Prop
  | passed {whole note : LineNote} : Without mark next ahead own whole note →
      Resumes mark next ahead own (.ok whole) (.ok note)
  | failed (e : Error) : Resumes mark next ahead own (.error e) (.error e)

end LineNote

end CodeListing
