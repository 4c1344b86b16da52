import Conductor.Decimal.Width
import Conductor.Json.Document
/-!
# TOML — tokens

Readers for the tokens of a TOML document: gaps, keys, strings, numbers and
times. A reader takes the characters at hand and returns what it has read
with the characters behind it, or nothing when they do not begin with such a
token. TOML texts are refused as a whole, so a refusal carries no reason.
-/

namespace Conductor

namespace Toml

/-- Reads a token from the start of the characters. -/
abbrev Scanner (α : Type) := List Char → Option (α × List Char)

/-! ## Gaps and line ends -/

/-- A space or a tab. -/
def isGap (c : Char) : Bool := c = ' ' || c = '\t'

/-- The characters behind a gap. -/
def skipGap (cs : List Char) : List Char := cs.dropWhile isGap

/-- The characters behind a line end, if one begins here. -/
def newline? : List Char → Option (List Char)
  | '\n' :: cs => some cs
  | '\r' :: '\n' :: cs => some cs
  | _ => none

/-- A character that may stand in a comment: no control character but the tab. -/
def isCommentChar (c : Char) : Bool :=
  c = '\t' || (0x20 ≤ c.toNat && c.toNat ≠ 0x7F)

/-- The characters behind a comment, if one begins here. -/
def skipComment : List Char → List Char
  | '#' :: cs => cs.dropWhile isCommentChar
  | cs => cs

/-- The characters behind the rest of a line that holds a gap and a comment at most. -/
def lineEnd? (cs : List Char) : Option (List Char) :=
  match skipComment (skipGap cs) with
  | [] => some []
  | cs => newline? cs

/-! ## Digits -/

/-- A decimal digit. -/
def isDecimal (c : Char) : Bool := '0' ≤ c && c ≤ '9'

/-- The value of a digit in bases up to sixteen. -/
def digitValue (c : Char) : Nat :=
  if isDecimal c then c.toNat - 48
  else if 'a' ≤ c ∧ c ≤ 'f' then c.toNat - 87
  else if 'A' ≤ c ∧ c ≤ 'F' then c.toNat - 55
  else 99

/-- The number that digits write in a base. -/
def digitsValue (base : Nat) (ds : List Char) : Nat :=
  ds.foldl (fun n d => n * base + digitValue d) 0

/-- Digits of a base, at least one, with single underscores between digits. -/
def scanDigits (isDigit : Char → Bool) : Scanner (List Char)
  | [] => none
  | c :: cs =>
    if isDigit c then
      match cs with
      | '_' :: cs =>
        match scanDigits isDigit cs with
        | some (ds, rest) => some (c :: ds, rest)
        | none => none
      | cs =>
        match scanDigits isDigit cs with
        | some (ds, rest) => some (c :: ds, rest)
        | none => some ([c], cs)
    else none

/-- Exactly `n` decimal digits, as a number of at most `high` and at least `low`. -/
def scanFixed (n low high : Nat) (cs : List Char) : Option (Nat × List Char) :=
  let ds := cs.take n
  let value := digitsValue 10 ds
  if ds.length = n ∧ ds.all isDecimal ∧ low ≤ value ∧ value ≤ high then some (value, cs.drop n)
  else none

/-- The characters behind a character that has to come first. -/
def expect (c : Char) : List Char → Option (List Char)
  | [] => none
  | d :: cs => if c = d then some cs else none

/-! ## Strings -/

/-- Exactly `n` hexadecimal digits that name a character. -/
def scanCodePoint (n : Nat) (cs : List Char) : Option (Char × List Char) :=
  let ds := cs.take n
  let value := digitsValue 16 ds
  if ds.length = n ∧ (ds.all fun d => digitValue d < 16) ∧ value.isValidChar then
    some (Char.ofNat value, cs.drop n)
  else none

/-- An escape behind its backslash. -/
def scanEscape : Scanner Char
  | 'b' :: cs => some ('\x08', cs)
  | 'f' :: cs => some ('\x0c', cs)
  | 'n' :: cs => some ('\n', cs)
  | 'r' :: cs => some ('\r', cs)
  | 't' :: cs => some ('\t', cs)
  | '"' :: cs => some ('"', cs)
  | '\\' :: cs => some ('\\', cs)
  | 'u' :: cs => scanCodePoint 4 cs
  | 'U' :: cs => scanCodePoint 8 cs
  | _ => none

/-- The delimiters of strings. Only between quotation marks do escapes count. -/
inductive Quote
  | double
  | single
  deriving DecidableEq

/-- The character of a delimiter. -/
def Quote.char : Quote → Char
  | .double => '"'
  | .single => '\''

/-- The characters behind the blank rest of a line and the blank lines after it. -/
def skipBlankLines (fuel : Nat) (cs : List Char) : List Char :=
  match fuel with
  | 0 => cs
  | fuel + 1 =>
    match newline? (skipGap cs) with
    | some cs => skipBlankLines fuel cs
    | none => skipGap cs

/-- A string on one line, behind its opening delimiter. What was read is in
reverse order. -/
def scanLineString (q : Quote) (fuel : Nat) (done : List Char) (cs : List Char) :
    Option (String × List Char) :=
  match fuel, cs with
  | 0, _ => none
  | _, [] => none
  | fuel + 1, c :: cs =>
    if c = q.char then some (String.ofList done.reverse, cs)
    else if c = '\\' ∧ q = .double then
      match scanEscape cs with
      | some (e, rest) => scanLineString q fuel (e :: done) rest
      | none => none
    else if isCommentChar c then scanLineString q fuel (c :: done) cs
    else none

/-- A string over several lines, behind its opening delimiters. A run of three
delimiters closes the string; up to two more at the end belong to it. A
backslash at the end of a line swallows the break and the blanks behind it. -/
def scanBlockString (q : Quote) (fuel : Nat) (done : List Char) (cs : List Char) :
    Option (String × List Char) :=
  match fuel, cs with
  | 0, _ => none
  | _, [] => none
  | fuel + 1, c :: cs =>
    if c = q.char then
      let run := (c :: cs).takeWhile (· = q.char)
      let rest := (c :: cs).dropWhile (· = q.char)
      if run.length < 3 then scanBlockString q fuel (run ++ done) rest
      else
        let kept := min (run.length - 3) 2
        some (String.ofList (List.replicate kept c ++ done).reverse, (c :: cs).drop (kept + 3))
    else if c = '\\' ∧ q = .double then
      match newline? (skipGap cs) with
      | some rest => scanBlockString q fuel done (skipBlankLines rest.length rest)
      | none =>
        match scanEscape cs with
        | some (e, rest) => scanBlockString q fuel (e :: done) rest
        | none => none
    else
      match newline? (c :: cs) with
      | some rest => scanBlockString q fuel ('\n' :: done) rest
      | none => if isCommentChar c then scanBlockString q fuel (c :: done) cs else none

/-- A string with a delimiter, behind the first of its delimiters. -/
def scanString (q : Quote) (cs : List Char) : Option (String × List Char) :=
  if cs.take 2 = [q.char, q.char] then
    let body := cs.drop 2
    let body := (newline? body).getD body
    scanBlockString q (body.length + 1) [] body
  else scanLineString q (cs.length + 1) [] cs

/-! ## Keys -/

/-- A character of a bare key. -/
def isKeyChar (c : Char) : Bool :=
  isDecimal c || ('a' ≤ c && c ≤ 'z') || ('A' ≤ c && c ≤ 'Z') || c = '_' || c = '-'

/-- One part of a key: bare, or a string on one line. -/
def scanKeyPart : Scanner String
  | '"' :: cs => scanLineString .double (cs.length + 1) [] cs
  | '\'' :: cs => scanLineString .single (cs.length + 1) [] cs
  | cs =>
    match cs.takeWhile isKeyChar with
    | [] => none
    | name => some (String.ofList name, cs.dropWhile isKeyChar)

/-- The parts of a key, with dots between them and gaps around each. -/
def scanKeyParts (fuel : Nat) (cs : List Char) : Option (List String × List Char) :=
  match fuel with
  | 0 => none
  | fuel + 1 => do
    let (part, cs) ← scanKeyPart (skipGap cs)
    match skipGap cs with
    | '.' :: cs =>
      let (parts, cs) ← scanKeyParts fuel cs
      return (part :: parts, cs)
    | cs => return ([part], cs)

/-- The number of tables and arrays that may be open at once, and of parts in a key. -/
def maxDepth : Nat := 79

/-- A key, as a list of parts that is not too long. -/
def scanKey (cs : List Char) : Option (List String × List Char) := do
  let (parts, cs) ← scanKeyParts (cs.length + 1) cs
  if parts.length ≤ maxDepth then return (parts, cs) else none

/-! ## Times -/

/-- The number of days of a month. -/
def monthDays (year month : Nat) : Nat :=
  if month = 2 then
    if year % 4 = 0 ∧ (year % 100 ≠ 0 ∨ year % 400 = 0) then 29 else 28
  else if month = 4 ∨ month = 6 ∨ month = 9 ∨ month = 11 then 30
  else 31

/-- A number in decimal digits, filled with zeros on the left. -/
def padded (width n : Nat) : String :=
  let digits := toString n
  Decimal.zeros (width - digits.length) ++ digits

/-- A date, as it is written back. -/
def scanDate (cs : List Char) : Option (String × List Char) := do
  let (year, cs) ← scanFixed 4 0 9999 cs
  let (month, cs) ← scanFixed 2 1 12 (← expect '-' cs)
  let (day, cs) ← scanFixed 2 1 (monthDays year month) (← expect '-' cs)
  return (padded 4 year ++ "-" ++ padded 2 month ++ "-" ++ padded 2 day, cs)

/-- The decimals of a second: nine digits count, and zeros at the end are dropped. -/
def secondDecimals (ds : List Char) : String :=
  match ((ds.take 9).reverse.dropWhile (· = '0')).reverse with
  | [] => ""
  | ds => "." ++ String.ofList ds

/-- A time of day, as it is written back. -/
def scanTime (cs : List Char) : Option (String × List Char) := do
  let (hour, cs) ← scanFixed 2 0 23 cs
  let (minute, cs) ← scanFixed 2 0 59 (← expect ':' cs)
  let (second, cs) ← scanFixed 2 0 60 (← expect ':' cs)
  let text := padded 2 hour ++ ":" ++ padded 2 minute ++ ":" ++ padded 2 second
  match cs with
  | '.' :: cs =>
    let ds := cs.takeWhile isDecimal
    if ds.isEmpty then none
    else return (text ++ secondDecimals ds, cs.dropWhile isDecimal)
  | cs => return (text, cs)

/-- The offset of a time, as it is written back; a time without one is local. -/
def scanOffset : Scanner String
  | 'Z' :: cs => some ("Z", cs)
  | 'z' :: cs => some ("Z", cs)
  | sign :: cs =>
    if sign = '+' ∨ sign = '-' then do
      let (hour, cs) ← scanFixed 2 0 23 cs
      let (minute, cs) ← scanFixed 2 0 59 (← expect ':' cs)
      let mark := if sign = '-' ∧ (hour ≠ 0 ∨ minute ≠ 0) then "-" else "+"
      return (mark ++ padded 2 hour ++ ":" ++ padded 2 minute, cs)
    else some ("", sign :: cs)
  | [] => some ("", [])

/-- A date, a time of day, or both with or without an offset. -/
def scanMoment (cs : List Char) : Option (String × List Char) :=
  match scanDate cs with
  | none => scanTime cs
  | some (date, rest) =>
    match rest with
    | [] => some (date, [])
    | mark :: behind =>
      if mark = 'T' ∨ mark = 't' ∨ mark = ' ' then
        match scanTime behind with
        | none => some (date, rest)
        | some (time, rest) => do
          let (offset, rest) ← scanOffset rest
          return (date ++ "T" ++ time ++ offset, rest)
      else some (date, rest)

/-! ## Numbers -/

/-- A sign, if there is one: whether it is negative, and the characters behind it. -/
def scanSign : List Char → Bool × List Char
  | '+' :: cs => (false, cs)
  | '-' :: cs => (true, cs)
  | cs => (false, cs)

/-- A whole number in base ten without its sign; a leading zero stands alone. -/
def scanWhole : Scanner (List Char)
  | '0' :: cs => some (['0'], cs)
  | cs => scanDigits isDecimal cs

/-- The exponent behind its letter: its sign, and its digits. -/
def scanPower (cs : List Char) : Option (Int × List Char) := do
  let (negative, cs) := scanSign cs
  let (ds, cs) ← scanDigits isDecimal cs
  let e : Int := digitsValue 10 ds
  return (if negative then -e else e, cs)

/-- The letter that announces an exponent. -/
def isPowerMark (c : Char) : Bool := c = 'e' || c = 'E'

/-- A finite number with decimals or an exponent. One beyond the largest
finite number is refused when it is positive. -/
def realNumber (negative : Bool) (digits : List Char) (exponent : Int) : Option Json.Document :=
  let x := Binary64.ofScientific negative (digitsValue 10 digits) exponent
  if !x.isFinite && !negative then none else some (.number (.real x))

/-- An integer in the base that a mark such as `0x` announces. -/
def scanBased (base : Nat) (cs : List Char) : Option (Json.Document × List Char) := do
  let (ds, cs) ← scanDigits (fun c => digitValue c < base) cs
  let n := digitsValue base ds
  if n < Width.intBound64 then return (.number (.int n), cs) else none

/-- A number in base ten: an integer of 64 bits with a sign, or a binary64 number. -/
def scanDecimal (cs : List Char) : Option (Json.Document × List Char) := do
  let (negative, cs) := scanSign cs
  match cs with
  | 'i' :: 'n' :: 'f' :: cs =>
    return (.number (.real (.ofSign negative Binary64.infinityBits)), cs)
  | 'n' :: 'a' :: 'n' :: cs => return (.number (.real ⟨0x7FF8000000000000⟩), cs)
  | cs =>
    let (whole, cs) ← scanWhole cs
    match cs with
    | '.' :: cs =>
      let (decimals, cs) ← scanDigits isDecimal cs
      let digits := whole ++ decimals
      let scale : Int := decimals.length
      match cs with
      | [] => return (← realNumber negative digits (-scale), [])
      | c :: behind =>
        if isPowerMark c then
          let (e, cs) ← scanPower behind
          return (← realNumber negative digits (e - scale), cs)
        else return (← realNumber negative digits (-scale), c :: behind)
    | cs =>
      if (cs.head?.map isPowerMark).getD false then
        let (e, cs) ← scanPower (cs.drop 1)
        return (← realNumber negative whole e, cs)
      else
        let n : Int := digitsValue 10 whole
        let i := if negative then -n else n
        if -(Width.intBound64 : Int) ≤ i ∧ i < Width.intBound64 then return (.number (.int i), cs) else none

/-- A time or a number. A time is an object with a single member, whose name
tells it from the tables of the document. -/
def scanNumber (cs : List Char) : Option (Json.Document × List Char) :=
  match scanMoment cs with
  | some (text, rest) =>
    some (.object [(.string "$__toml_private_datetime", .string text)] .closed, rest)
  | none =>
    match cs with
    | '0' :: 'x' :: cs => scanBased 16 cs
    | '0' :: 'o' :: cs => scanBased 8 cs
    | '0' :: 'b' :: cs => scanBased 2 cs
    | cs => scanDecimal cs

end Toml

end Conductor
