import Conductor.Json.Basic
/-!
# JSON — documents

A document is the outcome of reading a text as far as it can be read. It keeps
the members of an object in the order of the text, with repetitions, because
the first problem of a text in reading order is the one that is reported, and
a repeated field is a problem for some readers and none for others.

A reader who skips a value looks at less than one who needs it: it accepts a
string with an unpaired surrogate and a number beyond all finite numbers. Such
a token is a `flawed` leaf. Where the text cannot be read on for anybody, the
document ends: in a `broken` leaf, which has one flaw for a reader who needs
the value and one for a reader who skips it, or in a list that is cut.
-/

namespace Conductor

namespace Json

/-- Why a text is no JSON document: a character that does not fit, or a text that ends too early. -/
inductive Flaw
  | malformed
  | ended
  deriving DecidableEq, Inhabited

/-- Whether a list of items or members was closed. -/
inductive Finish
  | closed
  | cut (flaw : Flaw)
  deriving DecidableEq

/-- A place from which a text cannot be read on, as three readers see it: one
who needs a value of any kind, one who skips the value, and one who takes
names and objects only. -/
structure Break where
  needed : Flaw
  skipped : Flaw
  named : Flaw
  deriving Inhabited

/-- A break that is the same flaw for all readers. -/
def Break.same (f : Flaw) : Break := ⟨f, f, f⟩

/-- What a text holds, in the order of the text. -/
inductive Document
  | null
  | bool (value : Bool)
  | number (value : Number)
  | string (value : String)
  | array (items : List Document) (finish : Finish)
  | object (members : List (Document × Document)) (finish : Finish)
  /-- A complete token that only a reader who skips it accepts. -/
  | flawed (flaw : Flaw)
  /-- The text cannot be read from here on. -/
  | broken (place : Break)
  /-- A value where the name of a member belongs. -/
  | stray (value : Document)
  deriving Inhabited

mutual

/-- A value as a document without flaws. -/
def Document.ofJson : Json → Document
  | .null => .null
  | .bool b => .bool b
  | .number n => .number n
  | .string s => .string s
  | .array xs => .array (Document.ofItems xs) .closed
  | .object ms => .object (Document.ofMembers ms) .closed

/-- The items of an array as documents. -/
def Document.ofItems : List Json → List Document
  | [] => []
  | x :: xs => Document.ofJson x :: Document.ofItems xs

/-- The members of an object as documents, in the order of the table. -/
def Document.ofMembers : List (String × Json) → List (Document × Document)
  | [] => []
  | (k, v) :: ms => (.string k, Document.ofJson v) :: Document.ofMembers ms

end

/-- Whether a list was closed, as a step of reading. -/
def Finish.check : Finish → Except Flaw Unit
  | .closed => .ok ()
  | .cut f => .error f

mutual

/-- The value of a document, or the first flaw in it. When there is a bound on
the arrays and objects open at once, the one that exceeds it is malformed. Of
equal names in an object the last wins. -/
def Document.value (nesting : Option Nat) : Document → Except Flaw Json
  | .null => .ok .null
  | .bool b => .ok (.bool b)
  | .number (.int i) => .ok (.number (.int i))
  | .number (.real x) => .ok (if x.isFinite then .number (.real x) else .null)
  | .string s => .ok (.string s)
  | .flawed f => .error f
  | .broken b => .error b.needed
  | .stray _ => .error .malformed
  | .array items finish =>
    if nesting = some 0 then .error .malformed
    else do
      let xs ← Document.values (nesting.map (· - 1)) items
      finish.check
      return .array xs
  | .object members finish =>
    if nesting = some 0 then .error .malformed
    else do
      let ms ← Document.entries (nesting.map (· - 1)) members []
      finish.check
      return .object ms

/-- The values of items, in order. -/
def Document.values (nesting : Option Nat) : List Document → Except Flaw (List Json)
  | [] => .ok []
  | d :: ds => do
    let x ← Document.value nesting d
    let xs ← Document.values nesting ds
    return x :: xs

/-- The members of an object on top of the table of those before. -/
def Document.entries (nesting : Option Nat) :
    List (Document × Document) → Table Json → Except Flaw (Table Json)
  | [], t => .ok t
  | (name, d) :: ms, t => do
    let k ← Document.name name
    let x ← Document.value nesting d
    Document.entries nesting ms (t.insert k x)

/-- The name of a member. -/
def Document.name : Document → Except Flaw String
  | .string s => .ok s
  | .flawed f => .error f
  | .broken b => .error b.needed
  | _ => .error .malformed

end

mutual

/-- The first flaw that a reader meets who skips the document. -/
def Document.skip : Document → Except Flaw Unit
  | .broken b => .error b.skipped
  | .stray _ => .error .malformed
  | .array items finish => do
    Document.skipAll items
    finish.check
  | .object members finish => do
    Document.skipMembers members
    finish.check
  | _ => .ok ()

/-- Skips items in order. -/
def Document.skipAll : List Document → Except Flaw Unit
  | [] => .ok ()
  | d :: ds => do
    Document.skip d
    Document.skipAll ds

/-- Skips members in order, the name of each before its value. -/
def Document.skipMembers : List (Document × Document) → Except Flaw Unit
  | [] => .ok ()
  | (name, d) :: ms => do
    Document.skip name
    Document.skip d
    Document.skipMembers ms

end

end Json

end Conductor
