import Conductor.Engine.Error
import Conductor.Run.Verdict
/-!
# Engine — metrics and lifecycle events

What the engine tells about its work while it goes on. The metrics count over
the life of an engine; an event is reported when something begins or ends, and
its text is one line of named fields behind a level. The number of a build is
no part of the text; that of a build found in the cache is its fingerprint.
-/

namespace Conductor

/-- What an engine has done so far. -/
structure Metrics where
  buildsExecuted : Nat
  cacheHits : Nat
  runsCompleted : Nat
  instancesFailed : Nat
  deriving DecidableEq

/-- An engine that has done nothing. -/
def Metrics.zero : Metrics := ⟨0, 0, 0, 0⟩

/-- Something that the engine reports. -/
inductive LifecycleEvent
  | buildStarted (build : Nat) (builder : Selector) (groups : List String)
  | buildFinished (build : Nat) (success : Bool)
  | buildCached (fingerprint : String)
  | healthcheckEvaluated (runner : Selector) (report : HealthReport)
  | runStarted (runId plan case : String) (runner : Selector) (instances : Nat)
  | instanceVerdict (instanceId : String) (verdict : Verdict)
  | metricsFlushed (metrics : Metrics)
  | runFinished (runId : String) (outcome : RunOutcome) (failed : Nat)
  | stageFailed (stage : Stage) (message : String)
  deriving DecidableEq

namespace LifecycleEvent

/-- A truth value in a line. -/
def flagText (b : Bool) : String := if b then "true" else "false"

/-- The level and the fields of an event. -/
def fields : LifecycleEvent → String × List (String × String)
  | .buildStarted _ builder groups =>
    ("INFO", [("event", "build.started"), ("builder", builder.text),
      ("groups", Text.quotedList groups)])
  | .buildFinished _ success =>
    ("INFO", [("event", "build.finished"), ("cached", flagText false),
      ("success", flagText success)])
  | .buildCached fingerprint =>
    ("INFO", [("event", "build.finished"), ("build_id", fingerprint), ("cached", flagText true),
      ("success", flagText true)])
  | .healthcheckEvaluated runner report =>
    ("INFO", [("event", "healthcheck.evaluated"), ("runner", runner.text),
      ("checks", toString report.checks.length),
      ("checks_succeeded", flagText report.checksSucceeded),
      ("fixes_succeeded", flagText report.fixesSucceeded)])
  | .runStarted runId plan case runner instances =>
    ("INFO", [("event", "run.started"), ("run_id", runId), ("plan", plan), ("case", case),
      ("runner", runner.text), ("instances", toString instances)])
  | .instanceVerdict instanceId verdict =>
    ("INFO", [("event", "instance.verdict"), ("instance", instanceId), ("verdict", verdict.name)])
  | .metricsFlushed m =>
    ("INFO", [("metric", "flush"), ("builds_executed", toString m.buildsExecuted),
      ("build_cache_hits", toString m.cacheHits), ("runs_completed", toString m.runsCompleted),
      ("instances_failed", toString m.instancesFailed)])
  | .runFinished runId outcome failed =>
    ("INFO", [("event", "run.finished"), ("run_id", runId), ("outcome", outcome.name),
      ("failed", toString failed)])
  | .stageFailed stage message =>
    ("WARN", [("event", "stage.failed"), ("stage", stage.name), ("error", message)])

/-- The line of an event. -/
def text (e : LifecycleEvent) : String :=
  let (level, fs) := e.fields
  level ++ String.join (fs.map fun f => " " ++ f.1 ++ "=" ++ f.2)

end LifecycleEvent

end Conductor
