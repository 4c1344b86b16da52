import Conductor.Json.Decode
import Conductor.Text.Blank
/-!
# Selectors

A selector names a builder or a runner: a kind and an implementation with a
colon between them. Both parts are non-empty and hold neither a colon nor a
blank character, so the text of a selector has one reading, and
`Selector.parse` accepts exactly the texts of selectors.
-/

namespace Conductor

/-- What each side of the colon has to be. -/
def IsSelectorPart (s : String) : Prop :=
  s ≠ "" ∧ ¬ Text.HasBlank s ∧ ':' ∉ s.toList

instance (s : String) : Decidable (IsSelectorPart s) :=
  inferInstanceAs (Decidable (_ ∧ _ ∧ _))

/-- A name for a builder or a runner. -/
structure Selector where
  kind : String
  implementation : String
  kind_isPart : IsSelectorPart kind
  implementation_isPart : IsSelectorPart implementation
  deriving DecidableEq

/-- Why a text is no selector; each reason but the first carries the text. -/
inductive SelectorError
  | empty
  | blank (text : String)
  | missingSeparator (text : String)
  | tooManySeparators (text : String)
  | emptyPart (text : String)
  deriving DecidableEq

/-- The message of a selector error. -/
def SelectorError.message : SelectorError → String
  | .empty => "selector must not be empty"
  | .blank s => "selector " ++ Text.quoted s ++ " contains whitespace"
  | .missingSeparator s =>
    "selector " ++ Text.quoted s ++
      " is missing the ':' separator; expected <kind>:<implementation>"
  | .tooManySeparators s => "selector " ++ Text.quoted s ++ " has more than one ':' separator"
  | .emptyPart s => "selector " ++ Text.quoted s ++ " has an empty kind or implementation"

namespace Selector

/-- The text of a selector. -/
def text (s : Selector) : String := s.kind ++ ":" ++ s.implementation

/-- Reads a selector. Of several faults the first of the list of errors counts. -/
def parse (s : String) : Except SelectorError Selector :=
  if s = "" then .error .empty
  else if Text.HasBlank s then .error (.blank s)
  else
    match s.toList.count ':' with
    | 0 => .error (.missingSeparator s)
    | 1 =>
      let kind := String.ofList (s.toList.takeWhile (· ≠ ':'))
      let implementation := String.ofList ((s.toList.dropWhile (· ≠ ':')).drop 1)
      if h : IsSelectorPart kind ∧ IsSelectorPart implementation then
        .ok ⟨kind, implementation, h.1, h.2⟩
      else .error (.emptyPart s)
    | _ => .error (.tooManySeparators s)

/-- The selector of a kind and an implementation. -/
def ofParts (kind implementation : String) : Except SelectorError Selector :=
  parse (kind ++ ":" ++ implementation)

/-- Selectors are listed by kind, then by implementation. -/
def precedes (a b : Selector) : Bool :=
  a.kind < b.kind || (a.kind = b.kind && a.implementation < b.implementation)

/-- A selector as JSON. -/
def toJson (s : Selector) : Json := .string s.text

/-- A selector from JSON: a text that is one. -/
def decode : Json.Decoder Selector :=
  Json.Decode.parsed fun s => (parse s).mapError SelectorError.message

end Selector

end Conductor
