import Conductor.Build.Basic
import Conductor.Engine.Lifecycle
import Conductor.Health.Check
import Conductor.Log.Entry
import Conductor.Run.Basic
/-!
# Engine — effects

What a call does to the world around it: it asks components to work, and tells
what happens. A list of effects in their order is all that can be seen of a call
before its result.
-/

namespace Conductor

/-- One effect of a call. -/
inductive Effect
  /-- A builder is asked for the artifact of a unit. -/
  | build (builder : Selector) (unit : Nat) (input : BuildInput)
  /-- The health of a runner is asked for. -/
  | examine (runner : Selector) (fix : Bool)
  /-- A check or a fix of a runner is asked for. -/
  | attend (runner : Selector) (need : HealthNeed)
  /-- A runner is asked to start instances. -/
  | run (runner : Selector) (input : RunInput)
  /-- A runner is asked to stop the instances of the run. -/
  | terminate (runner : Selector)
  /-- Something is reported. -/
  | event (event : LifecycleEvent)
  /-- A line of the log is shown at once. -/
  | echo (entry : LogEntry)

end Conductor
