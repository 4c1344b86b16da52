import Conductor.Json.Access
/-!
# Rehearsal — notation for octets

What instances write may be long, and need not be text. In the documents that
describe a rehearsal octets are written as a string, as hexadecimal digits, as
something with a number of repetitions, or as a list of such pieces.
-/

namespace Conductor

namespace Json

/-- The value of a hexadecimal digit. -/
def hexDigit (c : Char) : Nat :=
  if c.isDigit then c.toNat - '0'.toNat
  else if 'a' ≤ c then c.toNat - 'a'.toNat + 10
  else c.toNat - 'A'.toNat + 10

/-- The octets written as hexadecimal digits. -/
def hexOctets : List Char → List UInt8
  | a :: b :: rest => UInt8.ofNat (hexDigit a * 16 + hexDigit b) :: hexOctets rest
  | _ => []

mutual

/-- The octets that a value stands for. -/
def octets : Json → List UInt8
  | .string s => Text.Utf8.ofString s
  | .array xs => piecesOctets xs
  | .object ms => notedOctets ms
  | _ => []

/-- The octets that pieces stand for. -/
def piecesOctets : List Json → List UInt8
  | [] => []
  | x :: xs => octets x ++ piecesOctets xs

/-- The octets that a note stands for. -/
def notedOctets : List (String × Json) → List UInt8
  | (name, .string s) :: rest => if name = "hex" then hexOctets s.toList else notedOctets rest
  | (name, .array [x, n]) :: rest =>
    if name = "repeat" then (List.replicate n.asNat (octets x)).flatten else notedOctets rest
  | _ :: rest => notedOctets rest
  | [] => []

end

/-- The text that a value stands for. -/
def asText (j : Json) : String := Text.Utf8.lossy j.octets

/-- The octets of a member. -/
def octetsAt (j : Json) (name : String) : List UInt8 := (j.member name).octets

/-- The text of a member. -/
def textAt (j : Json) (name : String) : String := (j.member name).asText

/-- The text of a member that need not be there. -/
def textAt? (j : Json) (name : String) : Option String :=
  if j.has name then some (j.textAt name) else none

end Json

end Conductor
