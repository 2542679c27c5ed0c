import CodeListing.Text.Numeral
import CodeListing.Text.Utf8

/-!
# Reading JSON in one pass

A value of a known shape is read straight off the text.  The pass goes from left to right and stops
at the first thing that is wrong, so a text with several faults has the fault that comes first.  A
`Fault` says which of three kinds it is.

This module holds the pieces that have no shape yet: white space, fixed words, string literals, and
`Reader.rounds`, the one loop on which all others are built.
-/

namespace CodeListing.Json

/-- What is wrong with a JSON text. -/
inductive Fault
  /-- The text ends too early. -/
  | truncated
  /-- The text is no JSON. -/
  | malformed
  /-- The text is JSON, of another shape than asked for. -/
  | mismatch
  deriving DecidableEq, Repr

/-- The fault in words. -/
def Fault.message : Fault → String
  | .truncated => "unexpected end of the text"
  | .malformed => "the text is not well-formed"
  | .mismatch => "a value is not of the expected shape"

/-- A reader takes a beginning of the text and answers with a value, or stops with a fault.  It
knows the number of characters that the text had in all. -/
abbrev Reader (α : Type) : Type := ReaderT Nat (StateT (List Char) (Except Fault)) α

namespace Reader

variable {α σ : Type}

/-- Rounds of `step`, at most `budget` of them, until one gives the answer. -/
def roundsWithin (step : σ → StateT (List Char) (Except Fault) (σ ⊕ α)) :
    (budget : Nat) → σ → List Char → Except Fault (α × List Char)
  | 0, _, _ => .error .malformed
  | budget + 1, s, text =>
    match step s text with
    | .error fault => .error fault
    | .ok (.inl s, rest) => roundsWithin step budget s rest
    | .ok (.inr a, rest) => .ok (a, rest)

/-- Rounds of `step`, starting from `s`, until one gives the answer.  Every round that does not give
it has to read a character, so there are no more rounds than there are characters, and one for the
answer. -/
def rounds (step : σ → Reader (σ ⊕ α)) (s : σ) : Reader α := fun size =>
  roundsWithin (fun s => step s size) (size + 1) s

/-- Whether `c` may stand between the parts of a JSON text. -/
def isBlank (c : Char) : Bool := c == ' ' || c == '\n' || c == '\t' || c == '\r'

/-- The next character, if there is one; it is not taken. -/
def next? : Reader (Option Char) := return (← get).head?

/-- Takes a character, if there is one. -/
def advance : Reader Unit := modify List.tail

/-- Passes blanks and looks at the character behind them, which is not taken.  There has to be
one. -/
def upcoming : Reader Char := do
  modify (·.dropWhile isBlank)
  match ← next? with
  | some c => return c
  | none => throw .truncated

/-- Takes the characters of `word`, which have to come next. -/
def word : (word : List Char) → Reader Unit
  | [] => return
  | w :: ws => do
    match ← next? with
    | none => throw .truncated
    | some c =>
      if c = w then
        advance
        word ws
      else
        throw .malformed

/-- Nothing but blanks may be left. -/
def done : Reader Unit := do
  modify (·.dropWhile isBlank)
  match ← next? with
  | none => return
  | some _ => throw .malformed

/-- The 16-bit unit that four hexadecimal digits write. -/
def hexUnit : Reader Nat := do
  match ← get with
  | a :: b :: c :: d :: rest =>
    match Text.hexNumber? [a, b, c, d] with
    | some unit =>
      set rest
      return unit
    | none => throw .malformed
  | text => throw (if Text.byteLength text < 4 then .truncated else .malformed)

/-- The character that an escape of one letter stands for. -/
def simpleEscape? : Char → Option Char
  | '"' => some '"'
  | '\\' => some '\\'
  | '/' => some '/'
  | 'b' => some '\x08'
  | 'f' => some '\x0c'
  | 'n' => some '\n'
  | 'r' => some '\r'
  | 't' => some '\t'
  | _ => none

/-- The character written by escaped 16-bit units: one unit, or a high and a low surrogate. -/
def escapedUnits : Reader Char := do
  let unit ← hexUnit
  if 0xDC00 ≤ unit ∧ unit ≤ 0xDFFF then
    throw .malformed
  else if 0xD800 ≤ unit ∧ unit ≤ 0xDBFF then
    word ['\\', 'u']
    let low ← hexUnit
    if 0xDC00 ≤ low ∧ low ≤ 0xDFFF then
      return Char.ofNat (0x10000 + (unit - 0xD800) * 0x400 + (low - 0xDC00))
    else
      throw .malformed
  else
    return Char.ofNat unit

/-- The next character of a string literal, `units` reading the escapes by 16-bit units; none at the
closing quote, which is taken. -/
def literalChar (units : Reader Char) : Reader (Option Char) := do
  match ← next? with
  | none => throw .truncated
  | some '"' =>
    advance
    return none
  | some '\\' =>
    advance
    match ← next? with
    | none => throw .truncated
    | some 'u' =>
      advance
      return some (← units)
    | some c =>
      match simpleEscape? c with
      | some c =>
        advance
        return some c
      | none => throw .malformed
  | some c =>
    if c.toNat < 0x20 then
      throw .malformed
    else
      advance
      return some c

/-- The text of a string literal whose opening quote has been taken. -/
def literalRest : Reader String :=
  rounds (fun (before : List Char) => do
    match ← literalChar escapedUnits with
    | some c => return .inl (c :: before)
    | none => return .inr (String.ofList before.reverse)) []

/-- Passes a string literal whose opening quote has been taken.  Its surrogates need not be
paired. -/
def skipLiteralRest : Reader Unit :=
  rounds (fun () => do
    match ← literalChar (hexUnit >>= fun _ => return ' ') with
    | some _ => return .inl ()
    | none => return .inr ()) ()

/-- The items between an opening bracket, which has been taken, and `close`, separated by commas. -/
def separated (close : Char) (item : σ → Reader σ) (s : σ) : Reader σ :=
  rounds (fun (first, s) => do
    let c ← upcoming
    if c = close then
      advance
      return .inr s
    else if first then
      return .inl (false, ← item s)
    else if c = ',' then
      advance
      return .inl (false, ← item s)
    else
      throw .malformed) (true, s)

end Reader

end CodeListing.Json
