import Conductor.Engine.Error
import Conductor.Event.Envelope
import Conductor.Run.Collector
import Conductor.Run.Instances
/-!
# Rehearsal — runners

A runner by script starts no process: every instance has the output that its
script gives it. Scripts are dealt out to the instances of a run in order, and
when there are no more a standard one is used.
-/

namespace Conductor

namespace Rehearsal

/-- What an instance writes; it may also fail to start, or keep its standard
output open. -/
structure InstanceScript where
  output : String
  errors : String
  failStart : Option String
  hangs : Bool

namespace InstanceScript

/-- An instance that sends events. They carry no time, so that each counts from
the moment of its arrival. -/
def ofEvents (events : List Event) : InstanceScript where
  output := String.join (events.map fun e => (Envelope.mk none e).toLine ++ "\n")
  errors := ""
  failStart := none
  hangs := false

/-- An instance that succeeds. -/
def succeeds : InstanceScript := ofEvents [.start, .succeeded]

/-- An instance that says that it has failed. -/
def fails (error : String) : InstanceScript := ofEvents [.start, .failed error]

/-- An instance that crashes. -/
def crashes (error : String) : InstanceScript :=
  ofEvents [.start, .crashed error "goroutine 1 [running]"]

/-- An instance that does not say how it finished. -/
def silent : InstanceScript := ofEvents [.start]

/-- An instance that never finishes. -/
def hanging : InstanceScript := { silent with hangs := true }

/-- An instance that does not start. -/
def absent (reason : String) : InstanceScript := ⟨"", "", some reason, false⟩

/-- The action of starting an instance. -/
def start (s : InstanceScript) (id : String) : Collector.Action :=
  match s.failStart with
  | some reason => .failStart id reason
  | none =>
    .manage id { OctetStream.ofText s.output with ending := if s.hangs then .silent else .closed }
      (.ofText s.errors)

end InstanceScript

/-- What a runner does for one run: it starts instances, it may enter the run in
the diary and cancel it, and it returns. -/
structure RunScript where
  starts : List Collector.Action
  label : Option String
  cancelsRun : Bool
  result : Except RunError RunOutput

/-- What a runner does when it has started the instances. -/
inductive RunEnding
  /-- It fails at once. -/
  | fails (message : String)
  /-- It enters the run in the diary, may cancel it, and returns, perhaps with an error. -/
  | returns (cancelsRun : Bool) (error : Option RunError)

/-- A runner that deals out scripts. -/
structure StockRunner where
  scripts : List InstanceScript
  /-- The script when there are no more. -/
  standard : InstanceScript
  ending : RunEnding

namespace StockRunner

/-- The script of the instance at a place in the run. -/
def scriptAt (r : StockRunner) (place : Nat) : InstanceScript := r.scripts.getD place r.standard

/-- The instances are started, each with its script. -/
def starts (r : StockRunner) (input : RunInput) : List Collector.Action :=
  input.slots.mapIdx fun place slot => (r.scriptAt place).start slot.id

/-- The action starts an instance. -/
def isStart : Collector.Action → Bool
  | .manage _ _ _ => true
  | _ => false

/-- How many instances have been started, and how many have not. -/
def output (r : StockRunner) (input : RunInput) : RunOutput :=
  let (started, failed) := (r.starts input).partition isStart
  ⟨input.runId, started.length, failed.length⟩

/-- The line of a run in the diary. -/
def diaryLine (o : RunOutput) : String :=
  "run " ++ o.runId ++ " started=" ++ toString o.started ++ " failed=" ++ toString o.failedToStart

/-- What the runner does for a run. -/
def script (r : StockRunner) (input : RunInput) : RunScript :=
  let output := r.output input
  match r.ending with
  | .fails message => ⟨r.starts input, none, false, .error (.failed [message])⟩
  | .returns cancelsRun error =>
    ⟨r.starts input, some (diaryLine output), cancelsRun,
      match error with
      | some e => .error e
      | none => .ok output⟩

end StockRunner

end Rehearsal

end Conductor
