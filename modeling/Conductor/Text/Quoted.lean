import Conductor.Text.Printable
/-!
# Text — quoted texts

The debug form of a text stands between quotation marks. A quotation mark, a
backslash and the four named control characters are written with a
backslash; every other unprintable character, and every grapheme extender, is
written by its code point in braces, in lower-case hexadecimal digits. A list
of texts is its quoted members between square brackets.
-/

namespace Conductor

namespace Text

/-- The digits of a number in base sixteen, in lower case and without leading zeros. -/
def hexDigits (n : Nat) : List Char :=
  Nat.toDigits 16 n

/-- One character inside a quoted text. -/
def quotedChar (c : Char) : List Char :=
  match c with
  | '"' => ['\\', '"']
  | '\\' => ['\\', '\\']
  | '\n' => ['\\', 'n']
  | '\r' => ['\\', 'r']
  | '\t' => ['\\', 't']
  | '\x00' => ['\\', '0']
  | c =>
    if isUnprintable c || isGraphemeExtend c then
      ['\\', 'u', '\x7b'] ++ hexDigits c.toNat ++ ['\x7d']
    else [c]

/-- The debug form of a text. -/
def quoted (s : String) : String :=
  String.ofList ('"' :: s.toList.flatMap quotedChar ++ ['"'])

/-- The debug form of a list of texts. -/
def quotedList (xs : List String) : String :=
  "[" ++ String.intercalate ", " (xs.map quoted) ++ "]"

end Text

end Conductor
