import Conductor.Decimal.Parts
import Conductor.Json.Document
/-!
# JSON — reading texts

`Document.read` reads an octet sequence as a document; it never fails, since a
document can end in a flaw. `Json.parse` is the reader for values: at most 127
arrays and objects may be open at once, and only blank characters may follow
the value. The scanners of tokens are shared by both: each returns what it has
read together with the octets behind it.
-/

namespace Conductor

namespace Json

/-- The outcome of reading one token or value: the document, and the octets
behind it when the text can be read on. -/
structure Reading where
  document : Document
  rest : Option (List UInt8)

/-- The text cannot be read on from here. -/
def Reading.stop (b : Break) : Reading := ⟨.broken b, none⟩

/-- The four characters that may stand between tokens. -/
def isGap (b : UInt8) : Bool :=
  b = 0x20 || b = 0x0A || b = 0x0D || b = 0x09

/-- The octets without the gap at their start. -/
def skipGap (bs : List UInt8) : List UInt8 :=
  bs.dropWhile isGap

/-- A decimal digit. -/
def isDigit (b : UInt8) : Bool :=
  0x30 ≤ b && b ≤ 0x39

/-! ## Strings -/

/-- The value of a hexadecimal digit. -/
def hexValue? (b : UInt8) : Option Nat :=
  if 0x30 ≤ b ∧ b ≤ 0x39 then some (b.toNat - 0x30)
  else if 0x41 ≤ b ∧ b ≤ 0x46 then some (b.toNat - 0x41 + 10)
  else if 0x61 ≤ b ∧ b ≤ 0x66 then some (b.toNat - 0x61 + 10)
  else none

/-- Four hexadecimal digits and the octets behind them. Fewer than four octets
are a text that ends, whatever they are. -/
def hexUnit : List UInt8 → Except Flaw (Nat × List UInt8)
  | a :: b :: c :: d :: rest =>
    match hexValue? a, hexValue? b, hexValue? c, hexValue? d with
    | some a, some b, some c, some d => .ok (a * 4096 + b * 256 + c * 16 + d, rest)
    | _, _, _, _ => .error .malformed
  | _ => .error .ended

theorem hexUnit_length {bs rest : List UInt8} {n : Nat} (h : hexUnit bs = .ok (n, rest)) :
    rest.length < bs.length := by
  unfold hexUnit at h
  split at h
  · split at h
    · simp only [Except.ok.injEq, Prod.mk.injEq] at h
      rw [← h.2]
      simp only [List.length_cons]
      omega
    · cases h
  · cases h

/-- The first unit of a surrogate pair. -/
def isLead (n : Nat) : Bool := 0xD800 ≤ n && n ≤ 0xDBFF

/-- The second unit of a surrogate pair. -/
def isTrail (n : Nat) : Bool := 0xDC00 ≤ n && n ≤ 0xDFFF

/-- The code point of a surrogate pair whose first unit is `lead` and whose
second one is escaped at the start of the octets. -/
def trailing (lead : Nat) : List UInt8 → Except Flaw (Nat × List UInt8)
  | [] => .error .ended
  | a :: bs =>
    if a ≠ 0x5C then .error .malformed
    else
      match bs with
      | [] => .error .ended
      | b :: bs =>
        if b ≠ 0x75 then .error .malformed
        else
          match hexUnit bs with
          | .error f => .error f
          | .ok (n, rest) =>
            if isTrail n then .ok (0x10000 + (lead - 0xD800) * 0x400 + (n - 0xDC00), rest)
            else .error .malformed

theorem trailing_length {lead n : Nat} {bs rest : List UInt8}
    (h : trailing lead bs = .ok (n, rest)) : rest.length < bs.length := by
  unfold trailing at h
  split at h
  · cases h
  · split at h
    · cases h
    · split at h
      · cases h
      · split at h
        · cases h
        · split at h
          · cases h
          · rename_i hu
            split at h
            · simp only [Except.ok.injEq, Prod.mk.injEq] at h
              have := hexUnit_length hu
              rw [← h.2]
              simp only [List.length_cons]
              omega
            · cases h

/-- The octet that a short escape stands for. -/
def shortEscape? (b : UInt8) : Option UInt8 :=
  if b = 0x22 ∨ b = 0x5C ∨ b = 0x2F then some b
  else if b = 0x62 then some 0x08
  else if b = 0x66 then some 0x0C
  else if b = 0x6E then some 0x0A
  else if b = 0x72 then some 0x0D
  else if b = 0x74 then some 0x09
  else none

/-- A break inside a string, behind the flaw already met. -/
def Break.inString (flaw : Option Flaw) (f : Flaw) : Break :=
  ⟨flaw.getD f, f, flaw.getD f⟩

/-- The document of a string: its octets, in reverse order, have to be UTF-8,
unless a flaw was met before. -/
def stringDocument (done : List UInt8) (flaw : Option Flaw) : Document :=
  match flaw with
  | some f => .flawed f
  | none =>
    match Text.Utf8.toString? done.reverse with
    | some s => .string s
    | none => .flawed .malformed

/-- A string behind its opening quotation mark. The octets read so far are
in reverse order; `flaw` is the first problem that a reader who skips the
string does not see. -/
def scanString (done : List UInt8) (flaw : Option Flaw) : List UInt8 → Reading
  | [] => .stop (Break.inString flaw .ended)
  | b :: bs =>
    if b = 0x22 then ⟨stringDocument done flaw, some bs⟩
    else if b < 0x20 then .stop (Break.inString flaw .malformed)
    else if b ≠ 0x5C then scanString (b :: done) flaw bs
    else
      match bs with
      | [] => .stop (Break.inString flaw .ended)
      | e :: bs =>
        if e ≠ 0x75 then
          match shortEscape? e with
          | some c => scanString (c :: done) flaw bs
          | none => .stop (Break.inString flaw .malformed)
        else
          match h : hexUnit bs with
          | .error f => .stop (Break.inString flaw f)
          | .ok (n, rest) =>
            have := hexUnit_length h
            if isTrail n then scanString done (flaw.or (some .malformed)) rest
            else if isLead n then
              match h' : trailing n rest with
              | .ok (c, rest') =>
                have := trailing_length h'
                scanString ((String.utf8EncodeChar (Char.ofNat c)).reverseAux done) flaw rest'
              | .error f => scanString done (flaw.or (some f)) rest
            else scanString ((String.utf8EncodeChar (Char.ofNat n)).reverseAux done) flaw rest
termination_by bs => bs.length
decreasing_by all_goals simp only [List.length_cons]; omega

/-! ## Numbers -/

/-- A number that lacks a digit where the octets given begin. Only a reader who
needs the number takes it for a text that ends. -/
def Break.inNumber (bs : List UInt8) : Break :=
  ⟨if bs.isEmpty then .ended else .malformed, .malformed, .malformed⟩

/-- The natural number that a list of digits writes. -/
def digitsValue (ds : List UInt8) : Nat :=
  ds.foldl (fun n d => n * 10 + (d.toNat - 0x30)) 0

/-- Appends digits to a natural number while 64 bits hold it: the number, and the
digits that are left. -/
def pushDigits (n : Nat) : List UInt8 → Nat × List UInt8
  | [] => (n, [])
  | d :: ds =>
    let next := n * 10 + (d.toNat - 0x30)
    if next < Width.natBound64 then pushDigits next ds else (n, d :: ds)

/-- What the digits before the decimal point write. Behind the first digit that
64 bits do not hold, every digit is taken for a zero. -/
def wholeDigits (whole : List UInt8) : Decimal.Scientific :=
  let pushed := pushDigits 0 whole
  ⟨pushed.1, pushed.2.length⟩

/-- What they write with digits behind the point. The first digit that 64 bits do
not hold ends the number, and the rest is dropped. -/
def withDecimals (x : Decimal.Scientific) (ds : List UInt8) : Decimal.Scientific :=
  let pushed := pushDigits x.digits ds
  ⟨pushed.1, x.exponent - ((ds.length - pushed.2.length : Nat) : Int)⟩

/-- A number with decimals or an exponent, or one that 64 bits do not hold. -/
def realNumber (negative : Bool) (x : Decimal.Scientific) : Document :=
  match Binary64.ofParts? negative x.digits x.exponent with
  | some y => .number (.real y)
  | none => .flawed .malformed

/-- A whole number: an integer of 64 bits where it fits. Zero with a sign is not
an integer. -/
def wholeNumber (negative : Bool) (x : Decimal.Scientific) : Document :=
  let i : Int := if negative then -(x.digits : Int) else x.digits
  if x.exponent = 0 ∧ fitsInt i ∧ (!negative ∨ x.digits ≠ 0) then .number (.int i)
  else realNumber negative x

/-- The exponent of a number, behind its letter, for the digits given. -/
def scanExponent (negative : Bool) (x : Decimal.Scientific) (bs : List UInt8) : Reading :=
  let minus := bs.head? = some 0x2D
  let bs := if minus ∨ bs.head? = some 0x2B then bs.drop 1 else bs
  let ds := bs.takeWhile isDigit
  let rest := bs.dropWhile isDigit
  if ds.isEmpty then .stop (Break.inNumber rest)
  else
    let e : Int := digitsValue ds
    ⟨realNumber negative ⟨x.digits, x.exponent + if minus then -e else e⟩, some rest⟩

/-- The letter that announces an exponent. -/
def isExponentMark (b : UInt8) : Bool :=
  b = 0x65 || b = 0x45

/-- What follows the digits before the decimal point. -/
def scanFraction (negative : Bool) (whole : Decimal.Scientific) : List UInt8 → Reading
  | [] => ⟨wholeNumber negative whole, some []⟩
  | b :: bs =>
    if b = 0x2E then
      let ds := bs.takeWhile isDigit
      let rest := bs.dropWhile isDigit
      if ds.isEmpty then .stop (Break.inNumber rest)
      else
        let x := withDecimals whole ds
        if (rest.head?.map isExponentMark).getD false then scanExponent negative x (rest.drop 1)
        else ⟨realNumber negative x, some rest⟩
    else if isExponentMark b then scanExponent negative whole bs
    else ⟨wholeNumber negative whole, some (b :: bs)⟩

/-- A number behind its sign. A zero is not followed by another digit. -/
def scanNumber (negative : Bool) : List UInt8 → Reading
  | [] => .stop (Break.inNumber [])
  | b :: bs =>
    if b = 0x30 then
      if (bs.head?.map isDigit).getD false then .stop (.same .malformed)
      else scanFraction negative (wholeDigits [b]) bs
    else if isDigit b then
      scanFraction negative (wholeDigits (b :: bs.takeWhile isDigit)) (bs.dropWhile isDigit)
    else .stop (.same .malformed)

/-! ## Values -/

/-- The rest of a word whose first letter has been read. -/
def scanWord (word : List UInt8) (document : Document) (bs : List UInt8) : Reading :=
  match word, bs with
  | [], bs => ⟨document, some bs⟩
  | _ :: _, [] => .stop ⟨.ended, .ended, .malformed⟩
  | w :: ws, b :: bs => if w = b then scanWord ws document bs else .stop (.same .malformed)

/-- The end of a list whose next item is announced by a comma: the octets at
the next item, or how the list ends and what follows it. -/
inductive Separator
  | next (rest : List UInt8)
  | finished (finish : Finish) (rest : Option (List UInt8))

/-- What stands behind an item: the closing octet, a comma, or neither. -/
def scanSeparator (closing : UInt8) (bs : List UInt8) : Separator :=
  match skipGap bs with
  | [] => .finished (.cut .ended) none
  | b :: rest =>
    if b = closing then .finished .closed (some rest)
    else if b = 0x2C then .next (skipGap rest)
    else .finished (.cut .malformed) none

mutual

/-- Reads a value that starts at the first octet, with at most `nesting` arrays
and objects open at once. The fuel bounds the number of steps. -/
def readValue (fuel nesting : Nat) (bs : List UInt8) : Reading :=
  match fuel, bs with
  | 0, _ => .stop (.same .malformed)
  | _, [] => .stop (.same .ended)
  | fuel + 1, b :: rest =>
    if b = 0x6E then scanWord [0x75, 0x6C, 0x6C] .null rest
    else if b = 0x74 then scanWord [0x72, 0x75, 0x65] (.bool true) rest
    else if b = 0x66 then scanWord [0x61, 0x6C, 0x73, 0x65] (.bool false) rest
    else if b = 0x22 then scanString [] none rest
    else if b = 0x2D then scanNumber true rest
    else if isDigit b then scanNumber false (b :: rest)
    else if b = 0x5B then
      match nesting with
      | 0 => .stop (.same .malformed)
      | nesting + 1 =>
        match skipGap rest with
        | [] => ⟨.array [] (.cut .ended), none⟩
        | c :: rest =>
          if c = 0x5D then ⟨.array [] .closed, some rest⟩
          else
            let (items, finish, rest?) := readItems fuel nesting (c :: rest)
            ⟨.array items finish, rest?⟩
    else if b = 0x7B then
      match nesting with
      | 0 => .stop (.same .malformed)
      | nesting + 1 =>
        match skipGap rest with
        | [] => ⟨.object [] (.cut .ended), none⟩
        | c :: rest =>
          if c = 0x7D then ⟨.object [] .closed, some rest⟩
          else
            let (members, finish, rest?) := readMembers fuel nesting (c :: rest)
            ⟨.object members finish, rest?⟩
    else .stop (.same .malformed)

/-- Reads the items of an array from the start of an item to the closing bracket. -/
def readItems (fuel nesting : Nat) (bs : List UInt8) :
    List Document × Finish × Option (List UInt8) :=
  match fuel with
  | 0 => ([], .cut .malformed, none)
  | fuel + 1 =>
    match readValue fuel nesting bs with
    | ⟨d, none⟩ => ([d], .closed, none)
    | ⟨d, some rest⟩ =>
      match scanSeparator 0x5D rest with
      | .finished finish rest? => ([d], finish, rest?)
      | .next rest =>
        let (ds, finish, rest?) := readItems fuel nesting rest
        (d :: ds, finish, rest?)

/-- Reads the members of an object from the start of a name to the closing
brace. Behind a comma a name has to follow. -/
def readMembers (fuel nesting : Nat) (bs : List UInt8) :
    List (Document × Document) × Finish × Option (List UInt8) :=
  match fuel, bs with
  | 0, _ => ([], .cut .malformed, none)
  | _, [] => ([(.broken (.same .ended), .null)], .closed, none)
  | fuel + 1, b :: rest =>
    if b ≠ 0x22 then
      let stray := (readValue fuel nesting (b :: rest)).document
      ([(.stray stray, .broken (.same .malformed))], .closed, none)
    else
      match scanString [] none rest with
      | ⟨name, none⟩ => ([(name, .null)], .closed, none)
      | ⟨name, some rest⟩ =>
        match skipGap rest with
        | [] => ([(name, .broken (.same .ended))], .closed, none)
        | c :: rest =>
          if c ≠ 0x3A then ([(name, .broken (.same .malformed))], .closed, none)
          else
            match readValue fuel nesting (skipGap rest) with
            | ⟨d, none⟩ => ([(name, d)], .closed, none)
            | ⟨d, some rest⟩ =>
              match scanSeparator 0x7D rest with
              | .finished finish rest? => ([(name, d)], finish, rest?)
              | .next rest =>
                let (ms, finish, rest?) := readMembers fuel nesting rest
                ((name, d) :: ms, finish, rest?)

end

/-- A text read as one document: `trailing` holds when something other than a
gap follows a document that could be read to its end. -/
structure Source where
  document : Document
  trailing : Bool

/-- Reads a text, with at most `nesting` arrays and objects open at once. -/
def readSource (nesting : Nat) (bs : List UInt8) : Source :=
  match readValue (2 * bs.length + 2) nesting (skipGap bs) with
  | ⟨d, none⟩ => ⟨d, false⟩
  | ⟨d, some rest⟩ => ⟨d, !(skipGap rest).isEmpty⟩

/-- The number of arrays and objects that may be open at once. -/
def maxNesting : Nat := 127

/-- The value that a text holds. -/
def parse (bs : List UInt8) : Except Flaw Json := do
  let s := readSource maxNesting bs
  let v ← s.document.value (some maxNesting)
  if s.trailing then throw .malformed
  return v

/-- The value that a text of characters holds. -/
def parseText (s : String) : Except Flaw Json :=
  parse (Text.Utf8.ofString s)

end Json

end Conductor
