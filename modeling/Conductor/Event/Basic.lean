import Conductor.Json.Decode
/-!
# Events

An instance reports what it does by events: its start, messages, metrics, and
how it finished. The outcome of a finish is kept as the text that was sent, so
that an outcome nobody knows is reported as such and does not spoil the event.
-/

namespace Conductor

/-- How an instance says that it finished. -/
inductive Outcome
  | ok
  | failed
  | crashed
  deriving DecidableEq

/-- The names of outcomes. -/
def Outcome.names : List (String × Outcome) :=
  [("ok", .ok), ("failed", .failed), ("crashed", .crashed)]

/-- The name of an outcome. -/
def Outcome.name : Outcome → String
  | .ok => "ok"
  | .failed => "failed"
  | .crashed => "crashed"

/-- An outcome from its name, or the name that nobody knows. -/
def Outcome.parse (s : String) : Except String Outcome :=
  match names.find? fun e => e.1 = s with
  | some e => .ok e.2
  | none => .error s

/-- The message for an unknown outcome. -/
def Outcome.unknownMessage (s : String) : String :=
  "unknown outcome: " ++ Text.quoted s

/-- An outcome from JSON. -/
def Outcome.decode : Json.Decoder Outcome := Json.Decode.variant Outcome.names

/-- What an event reports. -/
inductive EventKind
  | start
  | message
  | metric
  | finish
  deriving DecidableEq

/-- The names of event kinds. -/
def EventKind.names : List (String × EventKind) :=
  [("start", .start), ("message", .message), ("metric", .metric), ("finish", .finish)]

/-- The name of an event kind. -/
def EventKind.name : EventKind → String
  | .start => "start"
  | .message => "message"
  | .metric => "metric"
  | .finish => "finish"

/-- An event kind from JSON. -/
def EventKind.decode : Json.Decoder EventKind := Json.Decode.variant EventKind.names

/-- Something that an instance reports. -/
structure Event where
  kind : EventKind
  /-- The text of the outcome; only a finish means anything by it. -/
  outcome : Option String
  error : Option String
  stacktrace : Option String
  message : Option String
  metric : Option Json
  runenv : Option Json

namespace Event

/-- An event of a kind and nothing else. -/
def bare (kind : EventKind) : Event := ⟨kind, none, none, none, none, none, none⟩

/-- The instance starts. -/
def start : Event := bare .start

/-- The instance says something. -/
def ofMessage (s : String) : Event := { bare .message with message := some s }

/-- The instance measured something. -/
def ofMetric (v : Json) : Event := { bare .metric with metric := some v }

/-- The instance finished well. -/
def succeeded : Event := { bare .finish with outcome := some Outcome.ok.name }

/-- The instance found an error. -/
def failed (error : String) : Event :=
  { bare .finish with outcome := some Outcome.failed.name, error := some error }

/-- The instance broke down. -/
def crashed (error stacktrace : String) : Event :=
  { bare .finish with
    outcome := some Outcome.crashed.name, error := some error, stacktrace := some stacktrace }

/-- The outcome of an event, or the text that is none; a missing outcome is
the empty text. -/
def typedOutcome (e : Event) : Except String Outcome :=
  match e.outcome with
  | some s => Outcome.parse s
  | none => .error ""

/-- A member that is left out when there is nothing to write. -/
def optionalMember (name : String) (v : Option Json) : List (String × Json) :=
  match v with
  | some v => [(name, v)]
  | none => []

/-- An event as JSON, the members in the order of their names. -/
def toJson (e : Event) : Json :=
  .object (optionalMember "error" (e.error.map .string) ++
    optionalMember "message" (e.message.map .string) ++
    optionalMember "metric" e.metric ++
    optionalMember "outcome" (e.outcome.map .string) ++
    optionalMember "runenv" e.runenv ++
    optionalMember "stacktrace" (e.stacktrace.map .string) ++
    [("type", .string e.kind.name)])

open Json.Decode

/-- The shape of an event. -/
def shape : Shape Event where
  title := "struct Event"
  fields :=
    [field "type" .required EventKind.decode fun x e => { e with kind := x },
     field "outcome" .defaulted (Json.Decode.nullable text) fun x e => { e with outcome := x },
     field "error" .defaulted (Json.Decode.nullable text) fun x e => { e with error := x },
     field "stacktrace" .defaulted (Json.Decode.nullable text) fun x e => { e with stacktrace := x },
     field "message" .defaulted (Json.Decode.nullable text) fun x e => { e with message := x },
     field "metric" .defaulted (Json.Decode.nullable value) fun x e => { e with metric := x },
     field "runenv" .defaulted (Json.Decode.nullable value) fun x e => { e with runenv := x }]
  empty := bare .start
  exact := false

/-- An event from JSON. -/
def decode : Json.Decoder Event := record shape

end Event

end Conductor
