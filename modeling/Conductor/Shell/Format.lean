import Conductor.Shell.Token
/-!
# Shell — written characters

Commands that write text know names for characters: a backslash with a letter,
or with up to three octal digits. A format holds places for arguments as well,
and is written again and again until there are no more arguments.
-/

namespace Conductor

namespace Shell

/-- The character that a letter names behind a backslash. -/
def namedChar? (c : Char) : Option Char :=
  match c with
  | '\\' => some '\\'
  | 'a' => some '\x07'
  | 'b' => some '\x08'
  | 'f' => some '\x0c'
  | 'n' => some '\n'
  | 'r' => some '\r'
  | 't' => some '\t'
  | 'v' => some '\x0b'
  | _ => none

/-- The value of an octal digit. -/
def octalDigit? (c : Char) : Option Nat :=
  if '0' ≤ c ∧ c ≤ '7' then some (c.toNat - '0'.toNat) else none

/-- Where the reader of characters is. -/
inductive EscapeMode
  | plain
  /-- Behind a backslash. -/
  | begun
  /-- In an octal number, of which so many digits may follow. -/
  | octal (value more : Nat)

/-- The character with a number, as far as it is one of an octet. -/
def octetChar (n : Nat) : Char := Char.ofNat (n % 256)

/-- Reads characters; the second part says whether a stop was met, which counts
only in text `forEcho`, where octal numbers may also begin with one more zero. -/
def unescape (forEcho : Bool) : EscapeMode → Raw → Raw × Bool
  | .plain, [] => ([], false)
  | .begun, [] => (['\\'], false)
  | .octal value _, [] => ([octetChar value], false)
  | .plain, c :: cs =>
    if c = '\\' then unescape forEcho .begun cs
    else
      let (r, stopped) := unescape forEcho .plain cs
      (c :: r, stopped)
  | .begun, c :: cs =>
    if forEcho ∧ c = 'c' then ([], true)
    else
      match octalDigit? c, namedChar? c with
      | some d, _ => unescape forEcho (.octal d (if forEcho ∧ c = '0' then 3 else 2)) cs
      | none, some x =>
        let (r, stopped) := unescape forEcho .plain cs
        (x :: r, stopped)
      | none, none =>
        let (r, stopped) := unescape forEcho .plain cs
        ('\\' :: c :: r, stopped)
  | .octal value more, c :: cs =>
    match octalDigit? c, more with
    | some d, more + 1 => unescape forEcho (.octal (value * 8 + d) more) cs
    | _, _ =>
      let (r, stopped) := if c = '\\' then unescape forEcho .begun cs
        else
          let (r, stopped) := unescape forEcho .plain cs
          (c :: r, stopped)
      (octetChar value :: r, stopped)

/-- What the echo command writes. -/
def echoed (arguments : List Raw) : Raw :=
  let (arguments, ending) := match arguments with
    | ['-', 'n'] :: rest => (rest, [])
    | all => (all, ['\n'])
  let (r, stopped) := unescape true .plain ([' '].intercalate arguments)
  if stopped then r else r ++ ending

/-! ## Formats -/

/-- A part of a format. -/
inductive Directive
  | text (raw : Raw)
  /-- A place for an argument: on the left of its width or on the right, filled
  with zeros or blanks, and in what way. -/
  | place (onLeft zeros : Bool) (width : Nat) (kind : Char)

/-- A place of which the flags and the width have been read. -/
structure OpenPlace where
  onLeft : Bool
  zeros : Bool
  width : Nat

/-- The parts of a format; `place` is the place that has begun. -/
def directives (place : Option OpenPlace) : Raw → List Directive
  | [] => []
  | c :: cs =>
    match place with
    | none =>
      if c = '%' then directives (some ⟨false, false, 0⟩) cs
      else .text [c] :: directives none cs
    | some p =>
      if c = '%' then .text ['%'] :: directives none cs
      else if c = '-' then directives (some { p with onLeft := true }) cs
      else if c = '0' ∧ p.width = 0 then directives (some { p with zeros := true }) cs
      else if c.isDigit then
        directives (some { p with width := p.width * 10 + (c.toNat - '0'.toNat) }) cs
      else .place p.onLeft p.zeros p.width c :: directives none cs

/-- The argument as it is written at a place. -/
def written (kind : Char) (argument : Raw) : Raw :=
  match kind with
  | 'd' => Raw.ofString (toString ((Raw.text argument).toInt?.getD 0))
  | 'c' => argument.take 1
  | 'b' => (unescape true .plain argument).1
  | _ => argument

/-- The argument at the width of its place. -/
def padded (onLeft zeros : Bool) (width : Nat) (r : Raw) : Raw :=
  let missing := width - r.length
  if onLeft then r ++ List.replicate missing ' '
  else
    match zeros, r with
    | true, '-' :: digits => '-' :: (List.replicate missing '0' ++ digits)
    | true, r => List.replicate missing '0' ++ r
    | false, r => List.replicate missing ' ' ++ r

/-- Writes a format once: the text, and the arguments that are left. -/
def fill : List Directive → List Raw → Raw × List Raw
  | [], arguments => ([], arguments)
  | .text raw :: rest, arguments =>
    let (r, arguments) := fill rest arguments
    (raw ++ r, arguments)
  | .place onLeft zeros width kind :: rest, arguments =>
    let (r, left) := fill rest arguments.tail
    (padded onLeft (zeros && kind = 'd') width (written kind (arguments.headD [])) ++ r, left)

/-- Writes a format until no arguments are left or it takes none. -/
def fillAll (format : List Directive) : (fuel : Nat) → List Raw → Raw
  | 0, _ => []
  | fuel + 1, arguments =>
    let (r, left) := fill format arguments
    if left.isEmpty ∨ left.length = arguments.length then r else r ++ fillAll format fuel left

/-- What a format and its arguments make. -/
def formatted (format : Raw) (arguments : List Raw) : Raw :=
  fillAll (directives none (unescape false .plain format).1) (arguments.length + 1) arguments

end Shell

end Conductor
