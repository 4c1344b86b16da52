import Conductor.Text.Utf8
/-!
# Shell — tokens

Test plans are often shell scripts. A script is a sequence of octets, and the
shell looks at them one by one; here each stands as the character with its
number. Out of them come words, redirections, and the marks between commands.
Words are made of pieces: text, and values of parameters.
-/

namespace Conductor

namespace Shell

/-- Octets as characters: the character of an octet is the one with its number. -/
abbrev Raw := List Char

namespace Raw

/-- Octets as characters. -/
def ofOctets (bs : List UInt8) : Raw := bs.map fun b => Char.ofNat b.toNat

/-- The octets that the characters stand for. -/
def octets (r : Raw) : List UInt8 := r.map fun c => UInt8.ofNat c.toNat

/-- The octets of a text as characters. -/
def ofString (s : String) : Raw := ofOctets (Text.Utf8.ofString s)

/-- The text whose octets the characters stand for. -/
def text (r : Raw) : String := Text.Utf8.lossy (octets r)

end Raw

/-- A piece of a word. -/
inductive Piece
  | text (raw : Raw)
  /-- The value of a parameter. Unless `quoted` it is cut at blanks. If it is
  empty, `instead` stands in for it. -/
  | value (quoted : Bool) (parameter : String) (instead : Raw)

/-- A word. -/
abbrev Word := List Piece

/-- What a redirection makes of a stream. -/
inductive Redirection
  | read
  | write
  | append
  /-- The stream becomes another one. -/
  | copy

/-- A token. -/
inductive Token
  | word (word : Word)
  | redirect (stream : Nat) (how : Redirection)
  /-- The next command follows. -/
  | next
  /-- The next command follows if this one succeeds. -/
  | and
  /-- The next command follows if this one fails. -/
  | or
  /-- Something that this shell does not know. -/
  | foreign

/-- Where in a script the shell is. Within double quotes `inQuotes` holds. -/
inductive Mode
  | plain
  | comment
  | single
  | double
  | escaped (inQuotes : Bool)
  | dollar (inQuotes : Bool)
  /-- In a name behind a dollar, whose characters come last first. -/
  | name (inQuotes : Bool) (read : Raw)
  /-- In braces behind a dollar. -/
  | braced (inQuotes : Bool) (read : Raw)
  /-- Behind the first character of a mark, and the number before it. -/
  | mark (first : Char) (stream : Option Nat)

/-- The shell in the middle of a script. All lists come last first. -/
structure Lexer where
  mode : Mode
  /-- The text of the piece that has begun. -/
  text : Raw
  /-- The pieces of the word that has begun. -/
  word : Option (List Piece)
  /-- The tokens, each with its line. -/
  tokens : List (Nat × Token)
  line : Nat

namespace Lexer

/-- Nothing has been read. -/
def start : Lexer := ⟨.plain, [], none, [], 1⟩

/-- A token is complete. -/
def push (l : Lexer) (t : Token) : Lexer := { l with tokens := (l.line, t) :: l.tokens }

/-- A word has begun. -/
def begin (l : Lexer) : Lexer := { l with word := some (l.word.getD []) }

/-- A character of a word. -/
def keep (l : Lexer) (c : Char) : Lexer := { l.begin with text := c :: l.text }

/-- A piece of a word. -/
def piece (l : Lexer) (p : Piece) : Lexer := { l with word := some (p :: l.word.getD []) }

/-- The text of a piece is complete. -/
def endText (l : Lexer) : Lexer :=
  if l.text.isEmpty then l else { l.piece (.text l.text.reverse) with text := [] }

/-- A quotation is complete; one with nothing in it makes a word all the same. -/
def endQuotation (l : Lexer) : Lexer :=
  let l := { l.endText with mode := .plain }
  match l.word with
  | some [] => l.piece (.text [])
  | _ => l

/-- The word is complete, if one has begun. -/
def endWord (l : Lexer) : Lexer :=
  let l := l.endText
  match l.word with
  | some pieces => { l.push (.word pieces.reverse) with word := none }
  | none => l

/-- Back to the text around a parameter. -/
def resume (l : Lexer) (inQuotes : Bool) : Lexer :=
  { l with mode := if inQuotes then .double else .plain }

/-- The value of a parameter is complete. -/
def value (l : Lexer) (inQuotes : Bool) (parameter : Raw) (instead : Raw) : Lexer :=
  (l.piece (.value inQuotes (Raw.text parameter) instead)).resume inQuotes

/-! ## Characters -/

/-- The character may stand in a name. -/
def isNameChar (c : Char) : Bool := c.isAlphanum || c = '_'

/-- The character is a parameter all by itself. -/
def isSpecial (c : Char) : Bool := c.isDigit || c ∈ ['#', '?', '@', '*', '$']

/-- The character begins a mark between words. -/
def isMark (c : Char) : Bool := c ∈ [';', '&', '|', '<', '>', '(', ')']

/-- The character can be escaped within double quotes: the two quotes that mean
something there, the dollar and the backslash. -/
def isEscapable (c : Char) : Bool := c ∈ ['$', '"', '\\', Char.ofNat 0x60]

/-- The number that stands before a redirection. -/
def streamBefore (l : Lexer) : Option Nat :=
  match l.word with
  | some [] => (Raw.text l.text.reverse).toNat?
  | _ => none

/-- A mark begins. A number before a redirection belongs to it. -/
def beginMark (l : Lexer) (c : Char) : Lexer :=
  match if c = '<' ∨ c = '>' then l.streamBefore else none with
  | some n => { l with mode := .mark c (some n), text := [], word := none }
  | none => { l.endWord with mode := .mark c none }

/-- A character outside quotes. -/
def plain (l : Lexer) (c : Char) : Lexer :=
  if c = '\n' then l.endWord.push .next
  else if c = ' ' ∨ c = '\t' then l.endWord
  else if c = '#' ∧ l.word.isNone then { l with mode := .comment }
  else if c = '\'' then { l.begin.endText with mode := .single }
  else if c = '"' then { l.begin.endText with mode := .double }
  else if c = '\\' then { l with mode := .escaped false }
  else if c = '$' then { l.begin.endText with mode := .dollar false }
  else if isMark c then l.beginMark c
  else l.keep c

/-- A character within double quotes. -/
def quoted (l : Lexer) (c : Char) : Lexer :=
  if c = '"' then l.endQuotation
  else if c = '\\' then { l with mode := .escaped true }
  else if c = '$' then { l.endText with mode := .dollar true }
  else l.keep c

/-- A character of the text around a parameter. -/
def around (l : Lexer) (inQuotes : Bool) (c : Char) : Lexer :=
  let l := l.resume inQuotes
  if inQuotes then l.quoted c else l.plain c

/-- A character behind a backslash. -/
def escape (l : Lexer) (inQuotes : Bool) (c : Char) : Lexer :=
  let l := l.resume inQuotes
  if c = '\n' then l
  else if inQuotes ∧ ¬ isEscapable c then (l.keep '\\').keep c
  else l.keep c

/-- A character behind a dollar. -/
def parameter (l : Lexer) (inQuotes : Bool) (c : Char) : Lexer :=
  if c.isAlpha ∨ c = '_' then { l with mode := .name inQuotes [c] }
  else if isSpecial c then l.value inQuotes [c] []
  else if c = '\x7b' then { l with mode := .braced inQuotes [] }
  else if c = '(' then (l.push .foreign).around inQuotes c
  else (l.keep '$').around inQuotes c

/-- What stands in braces: a parameter, and perhaps what stands in for it. -/
def endBraces (l : Lexer) (inQuotes : Bool) (read : Raw) : Lexer :=
  match read.span fun c => isNameChar c || isSpecial c with
  | (parameter, []) => l.value inQuotes parameter []
  | (parameter, ':' :: '-' :: instead) => l.value inQuotes parameter instead
  | (_, _) => l.push .foreign

/-- The token of a mark of one character. -/
def markToken (first : Char) (stream : Option Nat) : Token :=
  if first = ';' then .next
  else if first = '>' then .redirect (stream.getD 1) .write
  else if first = '<' then .redirect (stream.getD 0) .read
  else .foreign

/-- The token of a mark of two characters, if they are one. -/
def longMarkToken? (first second : Char) (stream : Option Nat) : Option Token :=
  if first = '&' ∧ second = '&' then some .and
  else if first = '|' ∧ second = '|' then some .or
  else if first = '>' ∧ second = '>' then some (.redirect (stream.getD 1) .append)
  else if first = '>' ∧ second = '&' then some (.redirect (stream.getD 1) .copy)
  else none

/-- A character behind the first one of a mark. -/
def endMark (l : Lexer) (first : Char) (stream : Option Nat) (c : Char) : Lexer :=
  let l := { l with mode := .plain }
  match longMarkToken? first c stream with
  | some t => l.push t
  | none => (l.push (markToken first stream)).plain c

/-- The next character, wherever it stands. -/
def read (l : Lexer) (c : Char) : Lexer :=
  match l.mode with
  | .plain => l.plain c
  | .comment => if c = '\n' then { l with mode := .plain }.plain c else l
  | .single => if c = '\'' then l.endQuotation else l.keep c
  | .double => l.quoted c
  | .escaped inQuotes => l.escape inQuotes c
  | .dollar inQuotes => l.parameter inQuotes c
  | .name inQuotes read =>
    if isNameChar c then { l with mode := .name inQuotes (c :: read) }
    else (l.value inQuotes read.reverse []).around inQuotes c
  | .braced inQuotes read =>
    if c = '\x7d' then l.endBraces inQuotes read.reverse
    else { l with mode := .braced inQuotes (c :: read) }
  | .mark first stream => l.endMark first stream c

/-- The next character of the script. -/
def step (l : Lexer) (c : Char) : Lexer :=
  let l := l.read c
  if c = '\n' then { l with line := l.line + 1 } else l

end Lexer

/-- The tokens of a script, each with its line. The last line need not be ended. -/
def tokens (script : Raw) : List (Nat × Token) :=
  (((script ++ ['\n']).foldl Lexer.step .start).tokens).reverse

end Shell

end Conductor
