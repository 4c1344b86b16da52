import Conductor.Text.Utf8
/-!
# Log — lines of a stream

The output of an instance arrives in chunks of octets, and the lines in it do
not depend on how it is cut into chunks. A line goes up to and including the
next newline. A line of more than `maxLine` octets is not kept, only its length
is; of any other the text is kept, without the newlines and carriage returns at
its end.
-/

namespace Conductor

/-- What follows the chunks of a stream. -/
inductive StreamEnd
  | closed
  /-- The stream cannot be read further. -/
  | broken (reason : String)
  /-- Nothing, and the stream stays open. -/
  | silent
  deriving DecidableEq

/-- Octets in the chunks in which they arrive. -/
structure OctetStream where
  chunks : List (List UInt8)
  ending : StreamEnd
  deriving DecidableEq

/-- The octets of a text in one chunk, and the end of the stream. -/
def OctetStream.ofText (s : String) : OctetStream := ⟨[Text.Utf8.ofString s], .closed⟩

/-- The longest line that is kept, with its newline. -/
def maxLine : Nat := 1048576

/-- A line of a stream. -/
inductive FramedLine
  | text (text : String)
  | oversized (length : Nat)
  deriving DecidableEq

/-- What is said in place of a line that is not kept. -/
def oversizedText (length : Nat) : String :=
  "ignoring line: " ++ toString length ++ " bytes exceeds the " ++ toString maxLine ++ " byte limit"

namespace Framing

/-- The octet that ends a line. -/
def newline : UInt8 := 10

/-- The octets that are cut off at the end of a line. -/
def isLineEnd (b : UInt8) : Bool := b = newline || b = 13

/-- A line that has begun: its octets in reverse order, unless there are too
many of them, and their number. -/
structure LineBuffer where
  kept : List UInt8
  length : Nat
  deriving DecidableEq

/-- No octet of the line has arrived. -/
def LineBuffer.empty : LineBuffer := ⟨[], 0⟩

/-- Takes in octets of the line; nothing is kept of a line that is too long. -/
def LineBuffer.absorb (b : LineBuffer) (piece : List UInt8) : LineBuffer :=
  let length := b.length + piece.length
  if maxLine < length then ⟨[], length⟩ else ⟨piece.reverseAux b.kept, length⟩

/-- The line whose octets have all arrived. -/
def LineBuffer.line (b : LineBuffer) : FramedLine :=
  if maxLine < b.length then .oversized b.length
  else .text (Text.Utf8.lossy (b.kept.dropWhile isLineEnd).reverse)

/-- The octets of a chunk up to and including the first newline, and those behind it. -/
def splitLine (chunk : List UInt8) : List UInt8 × Option (List UInt8) :=
  match chunk.span (· ≠ newline) with
  | (head, []) => (head, none)
  | (head, b :: rest) => (head ++ [b], some rest)

/-- What comes of reading the next line. -/
inductive Reading
  | line (line : FramedLine) (rest : OctetStream)
  | ended
  | broken (reason : String)
  /-- The line has not ended, and nothing more has arrived. -/
  | waiting
  deriving DecidableEq

/-- Reads on in a line. -/
def readOn (b : LineBuffer) (ending : StreamEnd) : List (List UInt8) → Reading
  | [] =>
    match ending with
    | .closed => if b.length = 0 then .ended else .line b.line ⟨[], .closed⟩
    | .broken reason => .broken reason
    | .silent => .waiting
  | chunk :: chunks =>
    match splitLine chunk with
    | (piece, none) => readOn (b.absorb piece) ending chunks
    | (piece, some rest) => .line (b.absorb piece).line ⟨rest :: chunks, ending⟩

end Framing

/-- Reads the next line of a stream. -/
def OctetStream.readLine (s : OctetStream) : Framing.Reading :=
  Framing.readOn .empty s.ending s.chunks

end Conductor
