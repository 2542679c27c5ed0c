import CodeListing.Error
import CodeListing.Fence
import CodeListing.Line.Directive

/-!
# Progress through the lines of a block

The directives of a line act on the line (`LineNote`) and on what is carried to the lines after it
(`Progress`): whether lines are numbered, the number that comes next, and what the block has seen so
far.

Numbers go up by one on every line, shown or not.  After the largest 64-bit number there is no next
one until a directive sets it.  A directive that sets a number beyond the next one leaves a gap,
which is noted with the line.
-/

namespace CodeListing

/-- What the directives of a line say about it. -/
structure LineNote where
  mark : LineMark := .plain
  focused : Bool := false
  /-- The number shown with the line. -/
  number : Option UInt64 := none
  /-- The numbers passed over in front of the line. -/
  skipped : List NumberRange := []
  deriving DecidableEq, Repr

/-- What is carried from line to line. -/
structure Progress where
  /-- Whether lines are numbered from here on. -/
  numbered : Bool
  /-- The number of the next line, shown or not. -/
  next : Option UInt64
  /-- Whether a line so far has the focus. -/
  anyFocused : Bool
  /-- Whether numbers were asked for so far. -/
  anyNumbered : Bool
  deriving DecidableEq, Repr

/-- The numbers from `next` up to the one before `target`, if there are any. -/
def NumberRange.gap? (next target : UInt64) : Option NumberRange :=
  if h : next < target then
    some ⟨next, target - 1, by
      have h := UInt64.lt_iff_toNat_lt.1 h
      have : (target - 1).toNat = target.toNat - 1 :=
        UInt64.toNat_sub_of_le target 1 (UInt64.le_iff_toNat_le.2 (by simp; omega))
      exact UInt64.le_iff_toNat_le.2 (by omega)⟩
  else
    none

namespace Progress

/-- The beginning of a block with this numbering. -/
def start : LineNumbering → Progress
  | .disabled => ⟨false, some 0, false, false⟩
  | .from first => ⟨true, some first, false, true⟩

/-- The effect of one directive on the block and on the line. -/
def obey (p : Progress) (note : LineNote) (directive : Directive) : Progress × LineNote :=
  let note := { note with mark := note.mark.after directive }
  match directive with
  | .focus => ({ p with anyFocused := true }, { note with focused := true })
  | .unnumbered => ({ p with numbered := false }, note)
  | .numbered none => ({ p with numbered := true, anyNumbered := true }, note)
  | .numbered (some target) =>
    ({ p with numbered := true, anyNumbered := true, next := some target },
      { note with skipped := note.skipped ++ (p.next.bind (NumberRange.gap? · target)).toList })
  | _ => (p, note)

/-- The effect of the words of a line, one after the other.  At a word that is no directive it ends
with that word; what was done until then stays done. -/
def obeyWords (p : Progress) (note : LineNote) : List String → Progress × Except String LineNote
  | [] => (p, .ok note)
  | word :: words =>
    match Directive.ofText? word with
    | none => (p, .error word)
    | some directive =>
      let (p, note) := p.obey note directive
      p.obeyWords note words

/-- The number after `n`, if there is one of 64 bits. -/
def successor? (n : UInt64) : Option UInt64 := if n + 1 = 0 then none else some (n + 1)

/-- The effect of the line at the place `index`, which has the mark `mark` to begin with and the
given words.  A line with an unknown word is not counted. -/
def pass (p : Progress) (index : Nat) (mark : LineMark) (words : List String) :
    Progress × Except Error LineNote :=
  match p.obeyWords { mark } words with
  | (p, .error word) => (p, .error (.directive word index))
  | (p, .ok note) =>
    ({ p with next := p.next.bind successor? },
      .ok { note with number := if p.numbered then p.next else none })

end Progress

end CodeListing
