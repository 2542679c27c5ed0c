import CodeListing.Error
import CodeListing.Markup

/-!
# Output buffers

An `OutputBuffer` collects what is written to it behind the text of its destination.  The
destination can be bound, exchanged and taken back at any time; without one, nothing can be written.

The functions are the single operations.  `Operation` and `OutputBuffer.perform` name them as data,
to speak of what a buffer does over time.
-/

namespace CodeListing

/-- A buffer with the text of its destination, if it has one. -/
structure OutputBuffer where
  destination : Option String
  deriving DecidableEq, Repr

namespace OutputBuffer

/-- A buffer without a destination. -/
def empty : OutputBuffer := ⟨none⟩

/-- Binds a destination and hands back the one that was bound before. -/
def bind (b : OutputBuffer) (destination : String) : Option String × OutputBuffer :=
  (b.destination, ⟨some destination⟩)

/-- Hands back the destination, which is no longer bound. -/
def release (b : OutputBuffer) : Option String × OutputBuffer := (b.destination, empty)

/-- Whether a destination is bound. -/
def isBound (b : OutputBuffer) : Bool := b.destination.isSome

/-- The text of the destination. -/
def contents (b : OutputBuffer) : Except Error String :=
  match b.destination with
  | some text => .ok text
  | none => .error .unbound

/-- Nothing is held back, so only the destination is looked for. -/
def flush (b : OutputBuffer) : Except Error Unit := b.contents.map fun _ => ()

/-- Writes a text as it is. -/
def append (b : OutputBuffer) (text : String) : Except Error OutputBuffer :=
  b.contents.map fun before => ⟨some (before ++ text)⟩

/-- Writes a text with its special characters as entities. -/
def appendEscaped (b : OutputBuffer) (text : String) : Except Error OutputBuffer :=
  b.append (Markup.escape text)

/-- The digits of numbers are first laid out in a space of this size. -/
def digitSpace : Nat := 6

/-- Writes a number: its digits from the space set aside for them, or, where they are too many for
it, from a text of their own. -/
def appendNumber (b : OutputBuffer) (n : UInt64) : Except Error OutputBuffer :=
  match Text.digitsWithin digitSpace n with
  | some digits => b.append digits
  | none => b.append (Text.decimal n)

/-- Writes a text as formatted output does, which knows of one failure only. -/
def appendFormatted (b : OutputBuffer) (text : String) : Except Error OutputBuffer :=
  (b.append text).mapError fun _ => .format

/-- Writes the value of an attribute. -/
def appendValue (b : OutputBuffer) : Markup.Value → Except Error OutputBuffer
  | .literal text => b.append text
  | .foreign text => b.appendEscaped text

/-- Writes the attributes of a tag. -/
def appendAttributes (b : OutputBuffer) : List (String × Markup.Value) → Except Error OutputBuffer
  | [] => .ok b
  | (name, value) :: attributes => do
    let b ← b.append (" " ++ name ++ "=\"")
    let b ← b.appendValue value
    let b ← b.append "\""
    b.appendAttributes attributes

/-- Writes a piece of markup. -/
def appendPiece (b : OutputBuffer) : Markup.Piece → Except Error OutputBuffer
  | .openTag name attributes => do
    let b ← b.append ("<" ++ name)
    let b ← b.appendAttributes attributes
    b.append ">"
  | .closeTag name => b.append ("</" ++ name ++ ">")
  | .literal content => b.append content
  | .text content => b.appendEscaped content
  | .number n => b.appendNumber n

/-- Writes markup. -/
def appendMarkup (b : OutputBuffer) : List Markup.Piece → Except Error OutputBuffer
  | [] => .ok b
  | piece :: markup => do
    let b ← b.appendPiece piece
    b.appendMarkup markup

/-- What can be asked of a buffer. -/
inductive Operation
  | bind (destination : String)
  | release
  | flush
  | contents
  | char (c : Char)
  | text (s : String)
  | escaped (s : String)
  | number (n : UInt64)
  | formattedChar (c : Char)
  | formattedText (s : String)
  deriving DecidableEq, Repr

/-- What a buffer answers. -/
inductive Answer
  | done
  | text (s : String)
  /-- A destination handed back, if there was one. -/
  | destination (s : Option String)
  deriving DecidableEq, Repr

/-- The answer to an operation that writes, and the buffer after it. -/
def written (b : OutputBuffer) : Except Error OutputBuffer → Except Error Answer × OutputBuffer
  | .ok b => (.ok .done, b)
  | .error e => (.error e, b)

/-- The answer to an operation, and the buffer after it. -/
def perform (b : OutputBuffer) : Operation → Except Error Answer × OutputBuffer
  | .bind destination => let (before, b) := b.bind destination; (.ok (.destination before), b)
  | .release => let (before, b) := b.release; (.ok (.destination before), b)
  | .flush => (b.flush.map fun () => .done, b)
  | .contents => (b.contents.map .text, b)
  | .char c => b.written (b.append (String.singleton c))
  | .text s => b.written (b.append s)
  | .escaped s => b.written (b.appendEscaped s)
  | .number n => b.written (b.appendNumber n)
  | .formattedChar c => b.written (b.appendFormatted (String.singleton c))
  | .formattedText s => b.written (b.appendFormatted s)

end OutputBuffer

end CodeListing
