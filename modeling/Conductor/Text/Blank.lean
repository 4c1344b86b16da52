/-!
# Text — blank characters

A character is blank when it has the Unicode property White_Space. Two
rules of the library are stated with this property: a selector holds no
blank character, and a name that consists of blank characters only does not
count as a name.
-/

namespace Conductor

namespace Text

/-- The characters with the Unicode property White_Space. -/
def isBlank (c : Char) : Bool :=
  (9 ≤ c.toNat && c.toNat ≤ 13) || c.toNat == 0x20 || c.toNat == 0x85 || c.toNat == 0xA0 ||
    c.toNat == 0x1680 || (0x2000 ≤ c.toNat && c.toNat ≤ 0x200A) || c.toNat == 0x2028 ||
    c.toNat == 0x2029 || c.toNat == 0x202F || c.toNat == 0x205F || c.toNat == 0x3000

/-- A text without any character that is not blank; the empty text is one. -/
def AllBlank (s : String) : Prop :=
  ∀ c ∈ s.toList, isBlank c = true

instance (s : String) : Decidable (AllBlank s) :=
  List.decidableBAll _ s.toList

/-- A text that holds at least one blank character. -/
def HasBlank (s : String) : Prop :=
  ∃ c ∈ s.toList, isBlank c = true

instance (s : String) : Decidable (HasBlank s) :=
  List.decidableBEx _ s.toList

end Text

end Conductor
