import CodeListing.Line.Directive

/-!
# The mark that prevails

`LineMark.afterAll` obeys directives one after the other, each on top of the mark that it finds.
`LineMark.Prevails` says what comes of it without going through them.  The mark that a line has to
begin with stays if it is one of a difference.  Else the first mark of a difference is taken,
wherever it stands, and where there is none, the strongest mark of all.
-/

namespace CodeListing

namespace Directive

/-- The mark that a directive asks for, if it asks for one. -/
def mark? : Directive → Option LineMark
  | .highlight => some .highlighted
  | .warning => some .warning
  | .error => some .error
  | .added => some .added
  | .removed => some .removed
  | .focus => none
  | .unnumbered => none
  | .numbered _ => none

/-- The marks that directives ask for, one after the other. -/
def marks (directives : List Directive) : List LineMark := directives.filterMap mark?

end Directive

namespace LineMark

/-- Whether the mark is one of a difference. -/
def isDiff : LineMark → Bool
  | .added => true
  | .removed => true
  | _ => false

/-- The place of a mark in the order from the weakest to the strongest. -/
def strength : LineMark → Nat
  | .plain => 0
  | .highlighted => 1
  | .warning => 2
  | .error => 3
  | .added => 4
  | .removed => 4

/-- The mark of a line after directives that are obeyed one after the other. -/
def afterAll (mark : LineMark) (directives : List Directive) : LineMark :=
  directives.foldl after mark

/-- The mark that a line comes to if it has the mark `first` and the marks `others` are asked for,
one after the other. -/
inductive Prevails (first : LineMark) (others : List LineMark) : LineMark → Prop
  | kept : first.isDiff = true → Prevails first others first
  | diff {mark : LineMark} : first.isDiff = false → others.find? isDiff = some mark →
      Prevails first others mark
  | strongest {mark : LineMark} : first.isDiff = false → (∀ other ∈ others, other.isDiff = false) →
      mark ∈ first :: others → (∀ other ∈ first :: others, other.strength ≤ mark.strength) →
      Prevails first others mark

end LineMark

end CodeListing
