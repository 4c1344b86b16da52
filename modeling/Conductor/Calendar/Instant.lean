import Conductor.Calendar.Date
import Conductor.Decimal.Width
import Conductor.Json.Decode
import Conductor.Text.Blank
/-!
# Calendar — instants

An instant is a second since the start of 1970, in universal time, and the
nanoseconds in it; from a thousand million on they count inside the leap
second that follows it. Instants are written as RFC 3339 times in universal
time, with as many groups of three decimals as are needed, and a year outside
four digits with its sign. The reader also accepts other offsets, blanks
between the parts, and a blank or a small letter in place of the separators.
-/

namespace Conductor

/-- A moment in universal time. -/
structure Instant where
  seconds : Int
  nanos : Nat
  nanos_lt : nanos < 2000000000
  deriving DecidableEq

namespace Instant

/-- The nanoseconds of a second. -/
def second : Nat := 1000000000

/-- The instant a number of nanoseconds after the start of 1970. -/
def ofNanos (n : Int) : Instant where
  seconds := n / 1000000000
  nanos := (n % 1000000000).toNat
  nanos_lt := by omega

/-- The nanoseconds since the start of 1970. -/
def toNanos (t : Instant) : Int :=
  t.seconds * 1000000000 + t.nanos

/-- The nanoseconds since the start of 1970, if they fit 64 bits with a sign. -/
def nanos64? (t : Instant) : Option Int :=
  let n := t.toNanos
  if -(Width.intBound64 : Int) ≤ n ∧ n < Width.intBound64 then some n else none

/-- The instant at the start of a second, within the years that are kept. -/
def ofSeconds? (s : Int) : Option Instant :=
  let first := Calendar.Date.toDays ⟨Calendar.minYear, 1, 1⟩ * 86400
  let behind := Calendar.Date.toDays ⟨Calendar.maxYear + 1, 1, 1⟩ * 86400
  if first ≤ s ∧ s < behind then some ⟨s, 0, by omega⟩ else none

/-! ## Writing -/

/-- A number in decimal digits, filled with zeros on the left. -/
def padded (width n : Nat) : String :=
  let digits := toString n
  Decimal.zeros (width - digits.length) ++ digits

/-- A year: four digits, or a sign and at least four digits. -/
def yearText (y : Int) : String :=
  if 0 ≤ y ∧ y ≤ 9999 then padded 4 y.toNat
  else (if y < 0 then "-" else "+") ++ padded 4 y.natAbs

/-- The decimals of a second: none, or three, six or nine. -/
def decimalsText (nanos : Nat) : String :=
  if nanos = 0 then ""
  else if nanos % 1000000 = 0 then "." ++ padded 3 (nanos / 1000000)
  else if nanos % 1000 = 0 then "." ++ padded 6 (nanos / 1000)
  else "." ++ padded 9 nanos

/-- An instant as an RFC 3339 time in universal time. -/
def text (t : Instant) : String :=
  let d := Calendar.Date.ofDays (t.seconds / 86400)
  let s := (t.seconds % 86400).toNat
  let leap := second ≤ t.nanos
  let sec := s % 60 + (if leap then 1 else 0)
  let nanos := if leap then t.nanos - second else t.nanos
  yearText d.year ++ "-" ++ padded 2 d.month ++ "-" ++ padded 2 d.day ++ "T" ++
    padded 2 (s / 3600) ++ ":" ++ padded 2 (s / 60 % 60) ++ ":" ++ padded 2 sec ++
    decimalsText nanos ++ "Z"

/-! ## Reading -/

/-- Why a text is no time. -/
inductive ReadError
  | invalid
  | tooShort
  | tooLong
  | outOfRange
  | impossible
  deriving DecidableEq

/-- The message of a reading error. -/
def ReadError.message : ReadError → String
  | .invalid => "input contains invalid characters"
  | .tooShort => "premature end of input"
  | .tooLong => "trailing input"
  | .outOfRange => "input is out of range"
  | .impossible => "no possible date and time matching input"

/-- Reads a part of a time from the start of the characters. -/
abbrev Part (α : Type) := List Char → Except ReadError (α × List Char)

/-- The characters behind blanks. -/
def skipBlank (cs : List Char) : List Char := cs.dropWhile Text.isBlank

/-- A decimal digit. -/
def isDigit (c : Char) : Bool := '0' ≤ c && c ≤ '9'

/-- The number that digits write. -/
def digitsValue (ds : List Char) : Nat := ds.foldl (fun n d => n * 10 + (d.toNat - 48)) 0

/-- A number of at least one and at most `width` digits; more digits than
`width` are left. Without a bound, the number has to fit 64 bits. -/
def number (width : Option Nat) : Part Nat
  | [] => .error .tooShort
  | cs =>
    let reach := match width with
      | some n => cs.take n
      | none => cs
    let ds := reach.takeWhile isDigit
    if ds.isEmpty then .error .invalid
    else if Width.intBound64 ≤ digitsValue ds then .error .outOfRange
    else .ok (digitsValue ds, cs.drop ds.length)

/-- A number of two digits at most within bounds, behind blanks. -/
def bounded (low high : Nat) : Part Nat := fun cs => do
  let (n, cs) ← number (some 2) (skipBlank cs)
  if low ≤ n ∧ n ≤ high then return (n, cs) else throw .outOfRange

/-- A mark between two parts, with blanks in front of it. -/
def mark (c : Char) (cs : List Char) : Except ReadError (List Char) :=
  match skipBlank cs with
  | [] => .error .tooShort
  | d :: cs => if c = d then .ok cs else .error .invalid

/-- A year, of four digits at most or with a sign. -/
def year : Part Int := fun cs => do
  match skipBlank cs with
  | '-' :: cs =>
    let (n, cs) ← number none cs
    if n ≤ Width.intBound32 then return (-(n : Int), cs) else throw .outOfRange
  | '+' :: cs =>
    let (n, cs) ← number none cs
    if n < Width.intBound32 then return ((n : Int), cs) else throw .outOfRange
  | cs =>
    let (n, cs) ← number (some 4) cs
    return ((n : Int), cs)

/-- The decimals of a second, if there are any: nine of them count. -/
def decimals : Part Nat
  | '.' :: cs => do
    let (n, rest) ← number (some 9) cs
    let count := cs.length - rest.length
    return (n * Nat.pow 10 (9 - count), rest.dropWhile isDigit)
  | cs => .ok (0, cs)

/-- Whether the characters begin with the name of universal time. -/
def isUniversal (cs : List Char) : Bool :=
  (cs.take 3).map Char.toUpper == ['U', 'T', 'C']

/-- The offset from universal time in seconds. -/
def offset (cs : List Char) : Except ReadError (Int × List Char) := do
  if isUniversal cs then return (0, cs.drop 3)
  match cs with
  | [] => throw .tooShort
  | c :: cs =>
    if c = 'Z' ∨ c = 'z' then return (0, cs)
    let negative ←
      if c = '+' then pure false
      else if c = '-' ∨ c = '\u2212' then pure true
      else throw .invalid
    let (hours, cs) ← pair cs
    let cs := cs.dropWhile fun c => c = ':' || Text.isBlank c
    match cs with
    | a :: b :: cs =>
      if isDigit a ∧ isDigit b then
        let minutes := digitsValue [a, b]
        if 60 ≤ minutes then throw .outOfRange
        let total : Int := hours * 3600 + minutes * 60
        return (if negative then -total else total, cs)
      else throw .invalid
    | [a] => if a.utf8Size < 2 then throw .tooShort else throw .invalid
    | [] => throw .tooShort
where
  /-- Two digits; what is shorter than two octets is too short. -/
  pair : Part Nat
    | a :: b :: cs =>
      if isDigit a ∧ isDigit b then .ok (digitsValue [a, b], cs) else .error .invalid
    | [a] => if a.utf8Size < 2 then .error .tooShort else .error .invalid
    | [] => .error .tooShort

/-- Reads a time. -/
def parse (s : String) : Except ReadError Instant := do
  let (y, cs) ← year s.toList
  let (month, cs) ← bounded 1 12 (← mark '-' cs)
  let (day, cs) ← bounded 1 31 (← mark '-' cs)
  let cs ← match cs with
    | [] => throw .tooShort
    | c :: cs => if c = 'T' ∨ c = 't' ∨ c = ' ' then pure cs else throw .invalid
  let (hour, cs) ← bounded 0 23 cs
  let (minute, cs) ← bounded 0 59 (← mark ':' cs)
  let (sec, cs) ← bounded 0 60 (← mark ':' cs)
  let (nanos, cs) ← decimals cs
  let (offset, cs) ← offset (skipBlank cs)
  if !(skipBlank cs).isEmpty then throw .tooLong
  let d : Calendar.Date := ⟨y, month, day⟩
  if !d.isValid || y < Calendar.minYear || Calendar.maxYear < y then throw .outOfRange
  if 86400 ≤ offset.natAbs then throw .outOfRange
  let ofDay : Int := hour * 3600 + minute * 60 + (if sec = 60 then 59 else sec)
  let nanos := nanos + (if sec = 60 then second else 0)
  match ofSeconds? (d.toDays * 86400 + ofDay - offset) with
  | none => throw .impossible
  | some t => if h : nanos < 2000000000 then return ⟨t.seconds, nanos, h⟩ else throw .outOfRange

/-- An instant as JSON. -/
def toJson (t : Instant) : Json := .string t.text

/-- An instant from JSON. -/
def decode : Json.Decoder Instant
  | _, .string s =>
    match parse s with
    | .ok t => .ok t
    | .error e => .error (.shape (.refused e.message))
  | _, d => .error (Json.mismatch "an RFC 3339 formatted date and time string" d)

end Instant

end Conductor
