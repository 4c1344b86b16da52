import Conductor.Json.Shape
/-!
# JSON — decoding into types

A decoder turns a document into a value of some type, or reports the first
problem in the order of the document. The decoders of this module are for
texts, numbers, lists and tables, for records, and for names of alternatives.

Where a document comes from matters in a few places only, and `Origin` lists
them: only a text can repeat a field of a record or be too deep, a text that
goes on behind the last field of a record in list form is malformed while a
value of that form has the wrong length, and the table of a configuration
document may go on there.
-/

namespace Conductor

namespace Json

/-- Where a document comes from. -/
inductive Origin
  /-- A JSON text that is being read. -/
  | text
  /-- A JSON value that has been read before; it has no repeated names. -/
  | value
  /-- A configuration document in another notation. -/
  | table
  deriving DecidableEq

/-- The surroundings of a document: its origin, and how many more arrays and
objects may be open at once inside it, if that is bounded. -/
structure Setting where
  origin : Origin
  nesting : Option Nat

/-- The setting of a whole text. -/
def Setting.text : Setting := ⟨.text, some maxNesting⟩

/-- The setting of a value that has been read before. -/
def Setting.value : Setting := ⟨.value, none⟩

/-- The setting of a configuration table. -/
def Setting.table : Setting := ⟨.table, none⟩

/-- The setting inside an array or object. -/
def Setting.inner (s : Setting) : Setting := { s with nesting := s.nesting.map (· - 1) }

/-- Reads a value of some type from a document. -/
abbrev Decoder (α : Type) := Setting → Document → Except DecodeError α

/-- A flaw as a decoding error. -/
def liftFlaw {α : Type} : Except Flaw α → Except DecodeError α
  | .ok a => .ok a
  | .error f => .error (.flaw f)

/-- The error of a document that has a type other than the one wanted. Inside
arrays and objects nothing is looked at. -/
def mismatch (want : String) : Document → DecodeError
  | .null => .shape (.invalidType .null want)
  | .bool b => .shape (.invalidType (.bool b) want)
  | .number (.int i) => .shape (.invalidType (.integer i) want)
  | .number (.real x) => .shape (.invalidType (.real x) want)
  | .string s => .shape (.invalidType (.string s) want)
  | .array _ _ => .shape (.invalidType .sequence want)
  | .object _ _ => .shape (.invalidType .map want)
  | .flawed f => .flaw f
  | .broken b => .flaw b.needed
  | .stray _ => .flaw .malformed

namespace Decode

variable {α β σ : Type}

/-! ## Texts and numbers -/

/-- A text. -/
def text : Decoder String
  | _, .string s => .ok s
  | _, d => .error (mismatch "a string" d)

/-- A truth value. -/
def flag : Decoder Bool
  | _, .bool b => .ok b
  | _, d => .error (mismatch "a boolean" d)

/-- A natural number below a bound; `want` names the type of such numbers. -/
def natBelow (bound : Nat) (want : String) : Decoder Nat
  | _, .number (.int i) =>
    if 0 ≤ i ∧ i < bound then .ok i.toNat
    else .error (.shape (.invalidValue (.integer i) want))
  | _, d => .error (mismatch want d)

/-- A natural number of 32 bits. -/
def nat32 : Decoder Nat := natBelow Width.natBound32 "u32"

/-- A natural number of 64 bits. -/
def nat64 : Decoder Nat := natBelow Width.natBound64 "usize"

/-- A binary64 number; an integer is rounded to one. -/
def real : Decoder Binary64
  | _, .number (.int i) => .ok (Binary64.ofInt i)
  | _, .number (.real x) => .ok x
  | _, d => .error (mismatch "f64" d)

/-- Nothing but null. -/
def unit : Decoder Unit
  | _, .null => .ok ()
  | _, d => .error (mismatch "unit" d)

/-- Any value. -/
def value : Decoder Json
  | s, d => liftFlaw (d.value s.nesting)

/-- A value that may be null. -/
def nullable (item : Decoder α) : Decoder (Option α)
  | _, .null => .ok none
  | s, d => do return some (← item s d)

/-- A text that a grammar of its own accepts. -/
def parsed (parse : String → Except String α) : Decoder α
  | s, d => do
    match parse (← text s d) with
    | .ok a => return a
    | .error reason => throw (.shape (.refused reason))

/-- Enters an array or object, unless too many are open. -/
def entering (s : Setting) (inside : Setting → Except DecodeError α) : Except DecodeError α :=
  if s.nesting = some 0 then .error (.flaw .malformed) else inside s.inner

/-! ## Lists and tables -/

/-- A list, the items decoded in order. -/
def list (item : Decoder α) : Decoder (List α)
  | s, .array items finish =>
    entering s fun s => do
      let xs ← items.mapM (item s)
      liftFlaw finish.check
      return xs
  | _, d => .error (mismatch "a sequence" d)

/-- The entries of a table on top of those before. -/
def entries (item : Decoder α) (s : Setting) (t : Table α) :
    List (Document × Document) → Except DecodeError (Table α)
  | [] => .ok t
  | (name, d) :: ms => do
    let k ← liftFlaw name.name
    let x ← item s d
    entries item s (t.insert k x) ms

/-- A table; of equal names the last wins. -/
def table (item : Decoder α) : Decoder (Table α)
  | s, .object members finish =>
    entering s fun s => do
      let t ← entries item s [] members
      liftFlaw finish.check
      return t
  | _, d => .error (mismatch "a map" d)

/-! ## Records -/

/-- What becomes of a record that lacks a field. -/
inductive Presence
  /-- It is refused. -/
  | required
  /-- The field is left unset; in list form the record is refused. -/
  | optional
  /-- The field has its default. -/
  | defaulted
  deriving DecidableEq

/-- A field of a record under construction. -/
structure Field (σ : Type) where
  name : String
  presence : Presence
  read : Decoder (σ → σ)

/-- A field whose value is put into the record by `put`. -/
def field (name : String) (presence : Presence) (item : Decoder α) (put : α → σ → σ) : Field σ :=
  ⟨name, presence, fun s d => do return put (← item s d)⟩

/-- The shape of a record: its fields in order of declaration, and the record
with every field at its default. An `exact` record has no other fields. -/
structure Shape (σ : Type) where
  title : String
  fields : List (Field σ)
  empty : σ
  exact : Bool

/-- The names of the fields. -/
def Shape.names (r : Shape σ) : List String := r.fields.map Field.name

/-- What is wanted in place of a list of the wrong length. -/
def Shape.lengthText (r : Shape σ) : String :=
  let n := r.fields.length
  r.title ++ " with " ++ toString n ++ (if n = 1 then " element" else " elements")

/-- The members of an object, in order, applied to the record `acc`; `seen`
holds the names of the fields met. -/
def Shape.ofMembers (r : Shape σ) (s : Setting) (finish : Finish) (seen : List String) (acc : σ) :
    List (Document × Document) → Except DecodeError σ
  | [] => do
    liftFlaw finish.check
    match r.fields.find? fun f => f.presence = .required && !seen.contains f.name with
    | some f => throw (.shape (.missingField f.name))
    | none => return acc
  | (name, d) :: ms => do
    let k ← liftFlaw name.name
    match r.fields.find? fun f => f.name = k with
    | some f =>
      if seen.contains k then throw (.shape (.duplicateField k))
      let put ← f.read s d
      r.ofMembers s finish (k :: seen) (put acc) ms
    | none =>
      if r.exact then throw (.shape (.unknownField k r.names))
      liftFlaw d.skip
      r.ofMembers s finish seen acc ms

/-- The items of an array, taken for the fields in order of declaration. -/
def Shape.ofItems (r : Shape σ) (s : Setting) (finish : Finish) (total index : Nat) (acc : σ) :
    List (Field σ) → List Document → Except DecodeError σ
  | f :: fs, d :: ds => do
    let put ← f.read s d
    r.ofItems s finish total (index + 1) (put acc) fs ds
  | f :: fs, [] => do
    liftFlaw finish.check
    if f.presence = .defaulted then r.ofItems s finish total (index + 1) acc fs []
    else throw (.shape (.invalidLength index r.lengthText))
  | [], [] => do
    liftFlaw finish.check
    return acc
  | [], _ :: _ =>
    match s.origin with
    | .text => throw (.flaw .malformed)
    | .value => throw (.shape (.invalidLength total "fewer elements in array"))
    | .table => return acc

/-- A record, from an object or from the list of its fields. -/
def record (r : Shape σ) : Decoder σ
  | s, .object members finish => entering s fun s => r.ofMembers s finish [] r.empty members
  | s, .array items finish =>
    entering s fun s => r.ofItems s finish items.length 0 r.empty r.fields items
  | _, d => .error (mismatch r.title d)

/-! ## Alternatives -/

/-- The alternative of a name. -/
def alternative (names : List (String × α)) (name : String) : Except DecodeError α :=
  match names.find? fun e => e.1 = name with
  | some e => .ok e.2
  | none => .error (.shape (.unknownVariant name (names.map Prod.fst)))

/-- An alternative without data in object form, read from a text: the name is
judged before its value is looked at, and nothing may follow. -/
def alternativeMember (names : List (String × α)) (s : Setting) (finish : Finish) :
    List (Document × Document) → Except DecodeError α
  | [] => do
    liftFlaw finish.check
    throw (.flaw .malformed)
  | (.stray v, _) :: _ => throw (mismatch "variant identifier" v)
  | (name, d) :: ms => do
    let a ← alternative names (← liftFlaw name.name)
    unit s d
    match ms with
    | [] => liftFlaw finish.check
    | _ :: _ => throw (.flaw .malformed)
    return a

/-- An alternative without data: its name, or an object from its name to null. -/
def variant (names : List (String × α)) : Decoder α
  | _, .string name => alternative names name
  | s, .object members finish =>
    match s.origin with
    | .text => entering s fun s => alternativeMember names s finish members
    | _ =>
      match members with
      | [(name, d)] => do
        let a ← alternative names (← liftFlaw name.name)
        unit s d
        return a
      | _ => throw (.shape (.invalidValue .map "map with a single key"))
  | s, d =>
    match s.origin, d with
    | .text, .flawed f => throw (.flaw f)
    | .text, .broken b => throw (.flaw b.named)
    | .text, _ => throw (.flaw .malformed)
    | _, d => throw (mismatch "string or map" d)

end Decode

/-! ## Whole documents -/

/-- Decodes what was read from a text: one document, and nothing behind it. -/
def decodeSource {α : Type} (item : Decoder α) (s : Source) : Except DecodeError α := do
  let a ← item .text s.document
  if s.trailing then throw (.flaw .malformed)
  return a

/-- Decodes a text. What the decoder skips may be nested to any depth. -/
def decodeText {α : Type} (item : Decoder α) (bs : List UInt8) : Except DecodeError α :=
  decodeSource item (readSource (bs.length + 1) bs)

/-- Decodes a text with a decoder that skips nothing, so that the text need not
be read deeper than any value can be. -/
def decodeShallow {α : Type} (item : Decoder α) (bs : List UInt8) : Except DecodeError α :=
  decodeSource item (readSource maxNesting bs)

/-- Decodes a value that has been read before; the error is always one of shape. -/
def decodeValue {α : Type} (item : Decoder α) (v : Json) : Except ShapeError α :=
  match item .value (.ofJson v) with
  | .ok a => .ok a
  | .error (.shape e) => .error e
  | .error (.flaw _) => .error (.refused "malformed value")

end Json

end Conductor
