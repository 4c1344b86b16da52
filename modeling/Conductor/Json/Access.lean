import Conductor.Json.Basic
/-!
# JSON — lenient access

Reading a value without complaint: what is missing, or is of another kind than
the one asked for, counts as empty. This is for documents that have been checked
elsewhere, or whose every member is optional.
-/

namespace Conductor

namespace Json

/-- The value of a member. -/
def member (j : Json) (name : String) : Json :=
  match j with
  | .object ms => (Table.get? name ms).getD .null
  | _ => .null

/-- The value has a member with the name. -/
def has (j : Json) (name : String) : Bool :=
  match j with
  | .object ms => (Table.get? name ms).isSome
  | _ => false

/-- The value as a string. -/
def asString : Json → String
  | .string s => s
  | _ => ""

/-- The value as a truth value. -/
def asFlag : Json → Bool
  | .bool b => b
  | _ => false

/-- The value as an integer, which may stand in a string. -/
def asInt : Json → Int
  | .number (.int i) => i
  | .string s => s.toInt?.getD 0
  | _ => 0

/-- The value as a natural number. -/
def asNat (j : Json) : Nat := j.asInt.toNat

/-- The items of the value. -/
def asList : Json → List Json
  | .array xs => xs
  | _ => []

/-- The members of the value. -/
def asTable : Json → Table Json
  | .object ms => ms
  | _ => []

/-- The items of the value as strings. -/
def asStrings (j : Json) : List String := j.asList.map asString

/-- A member as a string. -/
def stringAt (j : Json) (name : String) : String := (j.member name).asString

/-- A member as a truth value. -/
def flagAt (j : Json) (name : String) : Bool := (j.member name).asFlag

/-- A member as a natural number. -/
def natAt (j : Json) (name : String) : Nat := (j.member name).asNat

/-- The items of a member. -/
def listAt (j : Json) (name : String) : List Json := (j.member name).asList

/-- The items of a member as strings. -/
def stringsAt (j : Json) (name : String) : List String := (j.member name).asStrings

end Json

end Conductor
