/-!
# Text — UTF-8

Encoding of characters as octets, and decoding by a machine that reads one
octet at a time. An ill-formed sequence is cut as short as possible: as soon
as an octet cannot continue the character begun, what was read of that
character counts as one error, and the octet is looked at afresh. So every
octet sequence decodes to a list of characters and errors, and a sequence is
well formed when the list holds no error.
-/

namespace Conductor

namespace Text

namespace Utf8

/-- The octets of a list of characters. -/
def encode (cs : List Char) : List UInt8 :=
  cs.flatMap String.utf8EncodeChar

/-- The octets of a text. -/
def ofString (s : String) : List UInt8 :=
  encode s.toList

/-- A character that has begun: the bits read, the number of octets that are
missing, and the range in which the next one has to lie. -/
structure Partial where
  bits : Nat
  missing : Nat
  low : UInt8
  high : UInt8

/-- An item of the decoded list: a character, or an error where a sequence is ill formed. -/
abbrev Item := Option Char

/-- The machine between two characters reads an octet. The ranges leave out
overlong forms, surrogates and code points above U+10FFFF. -/
def start (b : UInt8) : List Item × Option Partial :=
  if b < 0x80 then ([some (Char.ofNat b.toNat)], none)
  else if b < 0xC2 then ([none], none)
  else if b < 0xE0 then ([], some ⟨b.toNat % 32, 1, 0x80, 0xBF⟩)
  else if b = 0xE0 then ([], some ⟨0, 2, 0xA0, 0xBF⟩)
  else if b = 0xED then ([], some ⟨13, 2, 0x80, 0x9F⟩)
  else if b < 0xF0 then ([], some ⟨b.toNat % 16, 2, 0x80, 0xBF⟩)
  else if b = 0xF0 then ([], some ⟨0, 3, 0x90, 0xBF⟩)
  else if b < 0xF4 then ([], some ⟨b.toNat % 8, 3, 0x80, 0xBF⟩)
  else if b = 0xF4 then ([], some ⟨4, 3, 0x80, 0x8F⟩)
  else ([none], none)

/-- One octet: the items that are complete with it and the character begun. -/
def step (p? : Option Partial) (b : UInt8) : List Item × Option Partial :=
  match p? with
  | none => start b
  | some p =>
    if p.low ≤ b ∧ b ≤ p.high then
      let bits := p.bits * 64 + b.toNat % 64
      if p.missing = 1 then ([some (Char.ofNat bits)], none)
      else ([], some ⟨bits, p.missing - 1, 0x80, 0xBF⟩)
    else
      let (items, next) := start b
      (none :: items, next)

/-- The items of an octet sequence that begins inside the character `p?`, behind
the items already read, which are in reverse order. -/
def decodeFrom (p? : Option Partial) (done : List Item) : List UInt8 → List Item
  | [] => (if p?.isSome then none :: done else done).reverse
  | b :: bs =>
    let (items, next) := step p? b
    decodeFrom next (items.reverseAux done) bs

/-- The characters and errors of an octet sequence. -/
def decode (bs : List UInt8) : List Item :=
  decodeFrom none [] bs

/-- The text of an octet sequence, each error replaced by U+FFFD. -/
def lossy (bs : List UInt8) : String :=
  String.ofList ((decode bs).map fun c => c.getD '\uFFFD')

/-- The text of a well-formed octet sequence. -/
def toString? (bs : List UInt8) : Option String :=
  let items := decode bs
  if items.all Option.isSome then some (String.ofList (items.filterMap id)) else none

end Utf8

end Text

end Conductor
