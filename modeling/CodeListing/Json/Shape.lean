import CodeListing.Json.Skip

/-!
# Values of a known shape

Readers for the shapes that settings are made of: words of truth, small numbers, texts, lists,
values that may be `null`, and records.

A record is written as an object, whose unknown members are passed over, or as the array of its
values in order.  Each of its members says by a `Presence` when it may be missing.
-/

namespace CodeListing.Json.Reader

variable {α σ : Type}

/-- Stops at a value of a shape that is not asked for.  A text, a number or a fixed word is read
first, and what is wrong with it counts. -/
def refuse : Reader α := do
  match ← upcoming with
  | 'n' => word ['n', 'u', 'l', 'l']
  | 't' => word ['t', 'r', 'u', 'e']
  | 'f' => word ['f', 'a', 'l', 's', 'e']
  | '"' =>
    advance
    let _ ← literalRest
  | '[' => throw .mismatch
  | '\x7b' => throw .mismatch
  | c =>
    if c.isDigit ∨ c = '-' then
      let _ ← number
    else
      throw .malformed
  throw .mismatch

/-- `true` or `false`. -/
def bool : Reader Bool := do
  match ← upcoming with
  | 't' =>
    word ['t', 'r', 'u', 'e']
    return true
  | 'f' =>
    word ['f', 'a', 'l', 's', 'e']
    return false
  | _ => refuse

/-- A whole number below 256. -/
def byte : Reader UInt8 := do
  let c ← upcoming
  if c.isDigit ∨ c = '-' then
    match ← number with
    | some n => if n < 256 then return n.toUInt8 else throw .mismatch
    | none => throw .mismatch
  else
    refuse

/-- A text. -/
def text : Reader String := do
  if (← upcoming) = '"' then
    advance
    literalRest
  else
    refuse

/-- A list of values. -/
def list (item : Reader α) : Reader (List α) := do
  if (← upcoming) = '[' then
    advance
    let backwards ← separated ']' (fun before => return (← item) :: before) []
    return backwards.reverse
  else
    refuse

/-- A value, or `null` in its place. -/
def nullable (value : Reader α) : Reader (Option α) := do
  if (← upcoming) = 'n' then
    word ['n', 'u', 'l', 'l']
    return none
  else
    return some (← value)

/-- A text, or a list of texts. -/
def textOrTexts : Reader (List String) := do
  match ← upcoming with
  | '"' => return [← text]
  | '[' => list text
  | _ => refuse

/-- When a member of a record may be missing. -/
inductive Presence
  /-- Never. -/
  | required
  /-- From an object, but not from an array. -/
  | nullable
  /-- From an object, and from the end of an array. -/
  | defaulted
  deriving DecidableEq, Repr

/-- A member of a record of type `σ`. -/
structure Member (σ : Type) where
  name : String
  presence : Presence
  /-- Reads the value into the record. -/
  read : σ → Reader σ

/-- Reads one member of an object, name and value, into the record, and adds its name to those
seen. -/
def objectMember (members : List (Member σ)) : List String × σ → Reader (List String × σ)
  | (seen, parts) => do
    if (← upcoming) ≠ '"' then
      throw .malformed
    advance
    let name ← literalRest
    let known := members.find? (·.name == name)
    if known.isSome && seen.contains name then
      throw .mismatch
    if (← upcoming) ≠ ':' then
      throw .malformed
    advance
    match known with
    | some m => return (name :: seen, ← m.read parts)
    | none =>
      skipValue
      return (seen, parts)

/-- Reads the values of an array as members in order, and its closing bracket.  `first` says that no
value has been read yet. -/
def arrayMembers (first : Bool) : List (Member σ) → σ → Reader σ
  | [], parts => do
    if (← upcoming) = ']' then
      advance
      return parts
    else
      throw .malformed
  | m :: members, parts => do
    let c ← upcoming
    if c = ']' then
      if (m :: members).all (·.presence == .defaulted) then
        advance
        return parts
      else
        throw .mismatch
    else if first then
      arrayMembers false members (← m.read parts)
    else if c = ',' then
      advance
      if (← upcoming) = ']' then
        throw .malformed
      arrayMembers false members (← m.read parts)
    else
      throw .malformed

/-- A record: an object or an array of its members.  A member that is missing keeps the value that
it has in `unset`. -/
def record (members : List (Member σ)) (unset : σ) : Reader σ := do
  match ← upcoming with
  | '\x7b' =>
    advance
    let (seen, parts) ← separated '\x7d' (objectMember members) ([], unset)
    if members.all fun m => m.presence != .required || seen.contains m.name then
      return parts
    else
      throw .mismatch
  | '[' =>
    advance
    arrayMembers true members unset
  | _ => refuse

/-- One of several names: a text that is one, or an object whose only member has it and the value
`null`. -/
def oneOf (choices : List (String × α)) : Reader α := do
  match ← upcoming with
  | '"' => choice
  | '\x7b' =>
    advance
    if (← upcoming) ≠ '"' then
      throw .malformed
    let a ← choice
    if (← upcoming) ≠ ':' then
      throw .malformed
    advance
    if (← upcoming) = 'n' then
      word ['n', 'u', 'l', 'l']
    else
      refuse
    if (← upcoming) = '\x7d' then
      advance
      return a
    else
      throw .malformed
  | _ => throw .malformed
where
  /-- A text that is one of the names. -/
  choice : Reader α := do
    match choices.lookup (← text) with
    | some a => return a
    | none => throw .mismatch

/-- The value that `text` writes, with nothing but blanks around it. -/
def readAll (value : Reader α) (text : String) : Except Fault α := do
  let whole : Reader α := do
    let a ← value
    done
    return a
  let (a, _) ← whole text.length text.toList
  return a

end CodeListing.Json.Reader
