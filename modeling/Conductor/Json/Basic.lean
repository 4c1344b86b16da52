import Conductor.Decimal.Layout
import Conductor.Decimal.Width
import Conductor.Table
import Conductor.Text.Utf8
/-!
# JSON — values and their text

A value is kept as it is compared and hashed: objects are tables, so their
members are sorted and unique, and a number is an integer of at most 64 bits
or a finite binary64 number. `Json.text` is the compact text of a value,
without spaces; it escapes the quotation mark, the backslash and the control
characters below U+0020, and nothing else.
-/

namespace Conductor

namespace Json

/-- A JSON number. -/
inductive Number
  | int (value : Int)
  | real (value : Binary64)
  deriving DecidableEq, Inhabited

end Json

/-- A JSON value; the members of an object form a table. -/
inductive Json
  | null
  | bool (value : Bool)
  | number (value : Json.Number)
  | string (value : String)
  | array (items : List Json)
  | object (members : List (String × Json))
  deriving Inhabited

namespace Json

/-- The integers that a number holds exactly: those of 64 bits, with or without a sign. -/
def fitsInt (i : Int) : Bool :=
  -(Width.intBound64 : Int) ≤ i ∧ i < Width.natBound64

/-- A natural number as a value. -/
def nat (n : Nat) : Json := .number (.int n)

/-- The text of a number. -/
def Number.text : Number → String
  | .int i => toString i
  | .real x => Decimal.Layout.json.write x

/-- One character inside a string. -/
def escapeChar (c : Char) : List Char :=
  match c with
  | '"' => ['\\', '"']
  | '\\' => ['\\', '\\']
  | '\n' => ['\\', 'n']
  | '\r' => ['\\', 'r']
  | '\t' => ['\\', 't']
  | '\x08' => ['\\', 'b']
  | '\x0c' => ['\\', 'f']
  | c =>
    if c.toNat < 0x20 then
      ['\\', 'u', '0', '0', Nat.digitChar (c.toNat / 16), Nat.digitChar (c.toNat % 16)]
    else [c]

/-- The characters of a string between quotation marks. -/
def stringChars (s : String) : List Char :=
  '"' :: s.toList.flatMap escapeChar ++ ['"']

mutual

/-- The characters of a value's text. -/
def chars : Json → List Char
  | .null => ['n', 'u', 'l', 'l']
  | .bool true => ['t', 'r', 'u', 'e']
  | .bool false => ['f', 'a', 'l', 's', 'e']
  | .number n => n.text.toList
  | .string s => stringChars s
  | .array [] => ['[', ']']
  | .array (x :: xs) => '[' :: (chars x ++ itemsChars xs)
  | .object [] => ['\x7b', '\x7d']
  | .object ((k, v) :: ms) => '\x7b' :: (stringChars k ++ ':' :: (chars v ++ membersChars ms))

/-- The items after the first one, and the closing bracket. -/
def itemsChars : List Json → List Char
  | [] => [']']
  | x :: xs => ',' :: (chars x ++ itemsChars xs)

/-- The members after the first one, and the closing brace. -/
def membersChars : List (String × Json) → List Char
  | [] => ['\x7d']
  | (k, v) :: ms => ',' :: (stringChars k ++ ':' :: (chars v ++ membersChars ms))

end

/-- The compact text of a value. -/
def text (v : Json) : String :=
  String.ofList v.chars

/-- The text of a table of values as an object. -/
def objectText (t : Table Json) : String :=
  (Json.object t).text

/-- A table of texts as an object. -/
def ofTexts (t : Table String) : Json :=
  .object (t.map fun e => (e.1, .string e.2))

/-- The object with the members given, the last of equal names winning. -/
def ofMembers (members : List (String × Json)) : Json :=
  .object (Table.ofList members)

end Json

end Conductor
