import CodeListing.Json.Number

/-!
# Passing over a value

A member that is not wanted is checked for its grammar and thrown away.  Values nest without limit,
so the open brackets are kept on a stack; every round takes at least one character.
-/

namespace CodeListing.Json.Reader

/-- An open bracket. -/
inductive Bracket
  | array
  | object
  deriving DecidableEq, Repr

/-- The bracket that closes it. -/
def Bracket.close : Bracket → Char
  | .array => ']'
  | .object => '\x7d'

/-- What may come next inside the open brackets. -/
inductive Expected
  | value
  | valueOrEnd
  | key
  | keyOrEnd
  | commaOrEnd
  deriving DecidableEq, Repr

/-- What comes next once a value is complete: nothing if no bracket is open. -/
def afterValue : List Bracket → (List Bracket × Expected) ⊕ Unit
  | [] => .inr ()
  | stack => .inl (stack, .commaOrEnd)

/-- Passes the beginning of a value: all of it, or its opening bracket. -/
def skipValueStart (stack : List Bracket) : Reader ((List Bracket × Expected) ⊕ Unit) := do
  match ← upcoming with
  | 'n' => word ['n', 'u', 'l', 'l']
  | 't' => word ['t', 'r', 'u', 'e']
  | 'f' => word ['f', 'a', 'l', 's', 'e']
  | '"' =>
    advance
    skipLiteralRest
  | '[' =>
    advance
    return .inl (.array :: stack, .valueOrEnd)
  | '\x7b' =>
    advance
    return .inl (.object :: stack, .keyOrEnd)
  | c =>
    if c.isDigit ∨ c = '-' then
      let _ ← numberParts .malformed
    else
      throw .malformed
  return afterValue stack

/-- Passes the name of a member and the colon behind it. -/
def skipKey (stack : List Bracket) : Reader ((List Bracket × Expected) ⊕ Unit) := do
  if (← upcoming) ≠ '"' then
    throw .malformed
  advance
  skipLiteralRest
  if (← upcoming) ≠ ':' then
    throw .malformed
  advance
  return .inl (stack, .value)

/-- Passes the closing bracket of the innermost open one if it comes next, and else does
`otherwise`. -/
def skipEnd (stack : List Bracket)
    (otherwise : Reader ((List Bracket × Expected) ⊕ Unit)) :
    Reader ((List Bracket × Expected) ⊕ Unit) := do
  let c ← upcoming
  match stack with
  | bracket :: outer =>
    if c = bracket.close then
      advance
      return afterValue outer
    else
      otherwise
  | [] => otherwise

/-- Passes a comma, and says what has to follow it. -/
def skipComma (stack : List Bracket) : Reader ((List Bracket × Expected) ⊕ Unit) := do
  if (← upcoming) ≠ ',' then
    throw .malformed
  advance
  match stack with
  | .object :: _ => return .inl (stack, .key)
  | _ => return .inl (stack, .value)

/-- Passes what may come next. -/
def skipStep : List Bracket × Expected → Reader ((List Bracket × Expected) ⊕ Unit)
  | (stack, .value) => skipValueStart stack
  | (stack, .valueOrEnd) => skipEnd stack (skipValueStart stack)
  | (stack, .key) => skipKey stack
  | (stack, .keyOrEnd) => skipEnd stack (skipKey stack)
  | (stack, .commaOrEnd) => skipEnd stack (skipComma stack)

/-- Passes a value of any shape. -/
def skipValue : Reader Unit := rounds skipStep ([], .value)

end CodeListing.Json.Reader
