import Conductor.Calendar.Instant
import Conductor.Event.Basic
/-!
# Events — envelopes

On the standard output of an instance every event travels in an envelope: one
line with a JSON object, whose member `event` is the event and whose member
`ts` is the time it was sent, in nanoseconds since the start of 1970. A time
that 64 bits cannot hold is not sent. What is read as `ts` but is no integer
of 64 bits counts as no time.
-/

namespace Conductor

/-- An event with the time at which it was sent, if that is known. -/
structure Envelope where
  time : Option Instant
  event : Event

/-- Why a line is no envelope. -/
inductive EnvelopeError
  | malformed (error : Json.DecodeError)
  | missingEvent
  | malformedEvent (error : Json.ShapeError)

/-- The message of an envelope error. For a line that is no JSON object it ends
where the words of the reader would follow. -/
def EnvelopeError.message : EnvelopeError → String
  | .malformed (.flaw _) => "malformed envelope: "
  | .malformed (.shape e) => "malformed envelope: " ++ e.message
  | .missingEvent => "envelope has no event member"
  | .malformedEvent e => "malformed event: " ++ e.message

namespace Envelope

/-- An envelope as JSON, the members in the order of their names. -/
def toJson (e : Envelope) : Json :=
  .object (("event", e.event.toJson) ::
    (Event.optionalMember "ts" ((e.time.bind Instant.nanos64?).map fun n => .number (.int n))))

/-- The line of an envelope, without a line end. -/
def toLine (e : Envelope) : String := e.toJson.text

/-- The time that a member says, if it is an integer of 64 bits with a sign. -/
def timeOf? : Json → Option Instant
  | .number (.int n) => if n < Width.intBound64 then some (.ofNanos n) else none
  | _ => none

/-- Reads a line. -/
def parse (line : List UInt8) : Except EnvelopeError Envelope :=
  match Json.decodeShallow (Json.Decode.table Json.Decode.value) line with
  | .error e => .error (.malformed e)
  | .ok members =>
    match members.get? "event" with
    | none => .error .missingEvent
    | some raw =>
      match Json.decodeValue Event.decode raw with
      | .error e => .error (.malformedEvent e)
      | .ok event => .ok ⟨(members.get? "ts").bind timeOf?, event⟩

end Envelope

end Conductor
