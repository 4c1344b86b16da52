import Conductor.Shell.Token
/-!
# Shell — commands

A script is a list of simple commands: words and redirections. A command that
follows another with a mark between them may depend on whether that one
succeeded. The words of a command become its fields when it is executed: each
piece gives its text, and a value outside quotes is cut at blanks.
-/

namespace Conductor

namespace Shell

/-! ## Reading -/

/-- When a command is executed. -/
inductive Condition
  | always
  /-- If the last command succeeded. -/
  | success
  /-- If the last command failed. -/
  | failure
  deriving DecidableEq

/-- The condition holds behind a command with a status. -/
def Condition.holds (c : Condition) (status : Nat) : Bool :=
  match c with
  | .always => true
  | .success => status = 0
  | .failure => status ≠ 0

/-- What becomes of a stream. -/
structure Redirect where
  stream : Nat
  how : Redirection
  target : Word

/-- A simple command, and the line where it ends. -/
structure Command where
  line : Nat
  condition : Condition
  words : List Word
  redirects : List Redirect

/-- The commands of a script, as far as this shell knows what they mean. -/
structure Script where
  commands : List Command
  /-- Behind them there is something foreign. -/
  broken : Bool

/-- The commands read so far, the one that has begun, and the redirection that
lacks its target. -/
structure ScriptReader where
  script : Script
  condition : Condition
  words : List Word
  redirects : List Redirect
  pending : Option (Nat × Redirection)

namespace ScriptReader

/-- Nothing has been read. -/
def start : ScriptReader := ⟨⟨[], false⟩, .always, [], [], none⟩

/-- No part of a command has been read. -/
def isBetween (r : ScriptReader) : Bool := r.words.isEmpty && r.redirects.isEmpty

/-- The command is complete, and another condition holds for the one that follows. -/
def close (r : ScriptReader) (line : Nat) (condition : Condition) : ScriptReader :=
  let c : Command := ⟨line, r.condition, r.words, r.redirects⟩
  { start with
    script := { r.script with commands := r.script.commands ++ [c] }
    condition }

/-- Something is not known. -/
def fail (r : ScriptReader) : ScriptReader := { r with script := { r.script with broken := true } }

/-- Reads a token. Nothing counts behind something foreign. -/
def step (r : ScriptReader) (t : Nat × Token) : ScriptReader :=
  if r.script.broken then r
  else
    match t.2, r.pending with
    | .word w, some (stream, how) =>
      { r with redirects := r.redirects ++ [⟨stream, how, w⟩], pending := none }
    | .word w, none => { r with words := r.words ++ [w] }
    | .redirect stream how, none => { r with pending := some (stream, how) }
    | .next, none => if r.isBetween then r else r.close t.1 .always
    | .and, none => if r.isBetween then r.fail else r.close t.1 .success
    | .or, none => if r.isBetween then r.fail else r.close t.1 .failure
    | _, _ => r.fail

end ScriptReader

/-- Reads a script. -/
def Script.read (text : Raw) : Script := ((tokens text).foldl ScriptReader.step .start).script

/-! ## Expansion -/

/-- What parameters mean: the values of most, and the list of the arguments. -/
structure Parameters where
  value : String → Raw
  arguments : List Raw

/-- The fields of words: the complete ones, last first, and the one that has begun. -/
structure Fields where
  complete : List Raw
  begun : Option Raw

namespace Fields

/-- No field has begun. -/
def empty : Fields := ⟨[], none⟩

/-- More of the field. -/
def extend (f : Fields) (r : Raw) : Fields := { f with begun := some (f.begun.getD [] ++ r) }

/-- The field is complete, if one has begun. -/
def cut (f : Fields) : Fields :=
  match f.begun with
  | some r => ⟨r :: f.complete, none⟩
  | none => f

/-- The character separates fields. -/
def isSeparator (c : Char) : Bool := c ∈ [' ', '\t', '\n']

/-- A value that is cut at blanks. -/
def spread (f : Fields) (r : Raw) : Fields :=
  r.foldl (fun f c => if isSeparator c then f.cut else f.extend [c]) f

/-- Values of which each makes a field; the first continues the one that has
begun, and the last may be continued. -/
def separate (f : Fields) : List Raw → Fields
  | [] => f
  | [r] => f.extend r
  | r :: rest => ((f.extend r).cut).separate rest

/-- A piece of a word. -/
def add (p : Parameters) (f : Fields) : Piece → Fields
  | .text raw => f.extend raw
  | .value quoted parameter instead =>
    if parameter = "@" ∧ quoted then f.separate p.arguments
    else if parameter = "@" then p.arguments.foldl (fun f r => (f.spread r).cut) f
    else
      let r := p.value parameter
      let r := if r.isEmpty then instead else r
      if quoted then f.extend r else f.spread r

end Fields

/-- The fields that a word gives. -/
def Word.fields (p : Parameters) (w : Word) : List Raw :=
  (w.foldl (Fields.add p) .empty).cut.complete.reverse

/-- The text that a word gives, with nothing cut. -/
def Word.flat (p : Parameters) (w : Word) : Raw :=
  w.flatMap fun
    | .text raw => raw
    | .value _ parameter instead =>
      let r := p.value parameter
      if r.isEmpty then instead else r

/-- The name and the value that a word assigns. -/
def Word.assignment? (w : Word) : Option (String × Word) :=
  match w with
  | .text raw :: rest =>
    match raw.span Lexer.isNameChar with
    | (first :: name, '=' :: value) =>
      if first.isDigit then none else some (Raw.text (first :: name), .text value :: rest)
    | _ => none
  | _ => none

/-- The assignments in front of a command, and the words of the command. -/
def splitAssignments : List Word → List (String × Word) × List Word
  | [] => ([], [])
  | w :: ws =>
    match Word.assignment? w with
    | none => ([], w :: ws)
    | some a =>
      let (assignments, words) := splitAssignments ws
      (a :: assignments, words)

end Shell

end Conductor
