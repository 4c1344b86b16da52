import Conductor.Json.Reader
import Conductor.Text.Quoted
/-!
# JSON — shape errors

A document that can be read may still have the wrong shape for what is wanted.
Each way in which it can be wrong is a constructor of `ShapeError`, and
`ShapeError.message` is the one place where the wording stands.
-/

namespace Conductor

namespace Json

/-- What was found where something else is wanted. -/
inductive Found
  | integer (value : Int)
  | real (value : Binary64)
  | bool (value : Bool)
  | string (value : String)
  | null
  | sequence
  | map

/-- The words for what was found. -/
def Found.text : Found → String
  | .integer i => "integer `" ++ toString i ++ "`"
  | .real x => "floating point `" ++ Decimal.Layout.json.write x ++ "`"
  | .bool b => "boolean `" ++ (if b then "true" else "false") ++ "`"
  | .string s => "string " ++ Text.quoted s
  | .null => "null"
  | .sequence => "sequence"
  | .map => "map"

/-- How a document misses the shape that is wanted. -/
inductive ShapeError
  | missingField (name : String)
  | duplicateField (name : String)
  | unknownField (name : String) (known : List String)
  | unknownVariant (name : String) (known : List String)
  | invalidType (found : Found) (want : String)
  | invalidValue (found : Found) (want : String)
  | invalidLength (length : Nat) (want : String)
  /-- A text with a grammar of its own was refused by that grammar. -/
  | refused (reason : String)

/-- A name between grave accents. -/
def ticked (name : String) : String := "`" ++ name ++ "`"

/-- The names of which one is wanted. -/
def alternatives : List String → String
  | [a] => ticked a
  | [a, b] => ticked a ++ " or " ++ ticked b
  | names => "one of " ++ String.intercalate ", " (names.map ticked)

/-- The message of a shape error. -/
def ShapeError.message : ShapeError → String
  | .missingField name => "missing field " ++ ticked name
  | .duplicateField name => "duplicate field " ++ ticked name
  | .unknownField name known => "unknown field " ++ ticked name ++ ", expected " ++ alternatives known
  | .unknownVariant name known =>
    "unknown variant " ++ ticked name ++ ", expected " ++ alternatives known
  | .invalidType found want => "invalid type: " ++ found.text ++ ", expected " ++ want
  | .invalidValue found want => "invalid value: " ++ found.text ++ ", expected " ++ want
  | .invalidLength length want =>
    "invalid length " ++ toString length ++ ", expected " ++ want
  | .refused reason => reason

/-- Why a document does not decode: the text is no document, or its shape is wrong. -/
inductive DecodeError
  | flaw (flaw : Flaw)
  | shape (error : ShapeError)

end Json

end Conductor
