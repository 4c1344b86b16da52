import Conductor.Engine.Call
/-!
# Engine — the health service

The health of a runner can be asked for over the wire. The body of such a
request is a `HealthRequest` in JSON. It is answered with the report when the
check could be made, however it came out; a request that cannot be served is
refused with a message, as the caller's fault or as ours.
-/

namespace Conductor

/-- Why the body of a request is not understood. -/
inductive RequestFault
  | undecodable (error : Json.DecodeError)
  | badRunner (error : SelectorError)

/-- The message of a fault. For a body that is no JSON it ends where the words of
the reader would follow. -/
def RequestFault.message : RequestFault → String
  | .undecodable (.flaw _) => "failed to decode request: "
  | .undecodable (.shape e) => "failed to decode request: " ++ e.message
  | .badRunner e => "runner: " ++ e.message

/-- A response: a status and a body. -/
structure Response where
  status : Nat
  body : Json

namespace Response

/-- A refusal with a message. -/
def refusal (status : Nat) (message : String) : Response :=
  ⟨status, .object [("error", .string message)]⟩

/-- The response to a body that is not understood. -/
def ofFault (f : RequestFault) : Response := refusal 400 f.message

/-- The response that a result of the check is. -/
def ofResult (runner : Selector) : Except OrchestrationError (Option HealthReport) → Response
  | .ok (some report) => ⟨200, report.toJson⟩
  | .ok none => refusal 400 ("runner " ++ runner.text ++ " does not support healthchecks")
  | .error (.unknownSelector e) => refusal 400 (OrchestrationError.unknownSelector e).message
  | .error e => refusal 500 e.message

end Response

/-- A request that is understood: whose health is asked for, and with fixes or not. -/
structure HealthQuery where
  runner : Selector
  fix : Bool
  deriving DecidableEq

namespace HealthQuery

/-- Reads the body of a request. -/
def ofBody (body : List UInt8) : Except RequestFault HealthQuery := do
  let r ← (Json.decodeText HealthRequest.decode body).mapError .undecodable
  let runner ← (Selector.parse r.runner).mapError .badRunner
  return ⟨runner, r.fix⟩

/-- The call that a query makes. -/
def request (q : HealthQuery) : Request := .checkHealth q.runner q.fix

end HealthQuery

/-- The result of a finished call as that of a check; other calls have none. -/
def Call.healthResult? (c : Call) : Option (Except OrchestrationError (Option HealthReport)) :=
  match c.phase with
  | .finished (.ok (.health r)) => some (.ok r)
  | .finished (.error e) => some (.error e)
  | _ => none

end Conductor
