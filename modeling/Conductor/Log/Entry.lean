import Conductor.Event.Envelope
import Conductor.Log.Line
/-!
# Log — entries

An entry of the log of a run is a line before its time is settled: a line that
carries the time of its event keeps it, any other has the moment of its arrival.
`classify` says which entry a line of standard output becomes, and what the line
means for its instance. Only an event that finishes the instance means
anything; what cannot be read as an event is kept as it is.
-/

namespace Conductor

/-- A line of the log whose time may be that of its arrival. -/
structure LogEntry where
  index : Nat
  instanceId : String
  time : Option Instant
  lineClass : LineClass
  text : String
  deriving DecidableEq

/-- The entry as a line that arrived at the moment given. -/
def LogEntry.line (e : LogEntry) (arrival : Instant) : Line :=
  ⟨e.index, e.instanceId, e.time.getD arrival, e.lineClass, e.text⟩

/-- What a line means for its instance. -/
inductive LineEffect
  | none
  | passes
  | fails
  /-- Nothing behind the line can be trusted. -/
  | stops
  deriving DecidableEq

/-- A line of standard output, read. -/
structure ClassifiedText where
  lineClass : LineClass
  time : Option Instant
  text : String
  effect : LineEffect
  deriving DecidableEq

/-- The text of a crash: what there is of the error and the stack trace, in two lines. -/
def crashText (error stacktrace : Option String) : String :=
  match error, stacktrace with
  | some e, some t => e ++ "\n" ++ t
  | some e, none => e
  | none, some t => t
  | none, none => ""

/-- Reads the event of an envelope. -/
def Envelope.classify (e : Envelope) : ClassifiedText :=
  let event := e.event
  match event.kind with
  | .start => ⟨.start, e.time, (event.runenv.map Json.text).getD "", .none⟩
  | .message => ⟨.message, e.time, event.message.getD "", .none⟩
  | .metric => ⟨.metric, e.time, (event.metric.map Json.text).getD "", .none⟩
  | .finish =>
    match event.typedOutcome with
    | .ok .ok => ⟨.ok, e.time, "", .passes⟩
    | .ok .failed => ⟨.fail, e.time, event.error.getD "", .fails⟩
    | .ok .crashed => ⟨.crash, e.time, crashText event.error event.stacktrace, .fails⟩
    | .error s => ⟨.internalError, e.time, Outcome.unknownMessage s, .stops⟩

/-- Reads a line of standard output. -/
def classify (raw : String) : ClassifiedText :=
  match Envelope.parse (Text.Utf8.ofString raw) with
  | .ok e => e.classify
  | .error _ => ⟨.other, none, raw, .none⟩

end Conductor
