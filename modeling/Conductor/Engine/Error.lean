import Conductor.Composition.Validation
import Conductor.Config.Error
import Conductor.Health.Check
/-!
# Engine — errors

Why an orchestration ended without a report. Every error belongs to a stage;
those about the configuration are found before any instance starts, and some
say no more than that the orchestration was canceled.
-/

namespace Conductor

/-- Why a build gave no artifact. -/
inductive BuildError
  | failed (causes : Causes)
  | canceled
  deriving DecidableEq

/-- The message of a build error. -/
def BuildError.message : BuildError → String
  | .failed c => "build failed: " ++ Causes.text c
  | .canceled => "build canceled"

/-- Why a runner gave up. -/
inductive RunError
  | failed (causes : Causes)
  | invalidInput (reason : String)
  | canceled
  deriving DecidableEq

/-- The message of a run error. -/
def RunError.message : RunError → String
  | .failed c => "run failed: " ++ Causes.text c
  | .invalidInput reason => "invalid run input: " ++ reason
  | .canceled => "run canceled"

/-- A selector that names no registered component. -/
structure UnknownSelector where
  component : Component
  selector : Selector
  deriving DecidableEq

/-- The message for an unknown selector. -/
def UnknownSelector.message (e : UnknownSelector) : String :=
  "unknown " ++ e.component.name ++ ": " ++ e.selector.text

/-- A runner that cannot run what a builder makes. -/
structure IncompatiblePair where
  runner : Selector
  builder : Selector
  /-- The kinds of builder that the runner takes. -/
  compatible : List String
  deriving DecidableEq

/-- The message for an incompatible pair. -/
def IncompatiblePair.message (e : IncompatiblePair) : String :=
  "runner " ++ e.runner.text ++ " is incompatible with builder " ++ e.builder.text ++
    "; compatible builder kinds: " ++ Text.quotedList e.compatible

/-- Build selectors that a builder does not know. -/
structure UnsupportedSelectors where
  builder : Selector
  selectors : List String
  deriving DecidableEq

/-- The message for unsupported selectors. -/
def UnsupportedSelectors.message (e : UnsupportedSelectors) : String :=
  "builder " ++ e.builder.text ++ " does not support selector(s): " ++
    String.intercalate ", " e.selectors

/-- The stages of an orchestration. -/
inductive Stage
  | validate
  | resolve
  | compatibility
  | build
  | healthcheck
  | run
  deriving DecidableEq

namespace Stage

/-- The names of the stages. -/
def names : List (String × Stage) :=
  [("validate", .validate), ("resolve", .resolve), ("compatibility", .compatibility),
   ("build", .build), ("healthcheck", .healthcheck), ("run", .run)]

/-- The name of a stage. -/
def name : Stage → String
  | .validate => "validate"
  | .resolve => "resolve"
  | .compatibility => "compatibility"
  | .build => "build"
  | .healthcheck => "healthcheck"
  | .run => "run"

/-- A stage from JSON. -/
def decode : Json.Decoder Stage := Json.Decode.variant names

end Stage

namespace Component

/-- The names of the kinds of component. -/
def names : List (String × Component) := [("builder", .builder), ("runner", .runner)]

/-- A kind of component from JSON. -/
def decode : Json.Decoder Component := Json.Decode.variant names

end Component

/-- Why an orchestration ended without a report. -/
inductive OrchestrationError
  | validation (violations : List Violation)
  | unknownSelector (error : UnknownSelector)
  | incompatible (error : IncompatiblePair)
  | unsupportedSelector (groups : List String) (error : UnsupportedSelectors)
  | config (stage : Stage) (error : ConfigError)
  | build (groups : List String) (error : BuildError)
  | healthcheck (error : HealthError)
  | rejected (reason : String) (report : HealthReport)
  | run (error : RunError)
  | canceled (stage : Stage)

namespace OrchestrationError

/-- The message of an error. -/
def message : OrchestrationError → String
  | .validation vs => Violation.summary vs
  | .unknownSelector e => e.message
  | .incompatible e => e.message
  | .unsupportedSelector groups e => "groups " ++ Text.quotedList groups ++ ": " ++ e.message
  | .config stage e => stage.name ++ " stage: " ++ e.message
  | .build groups e => "build for groups " ++ Text.quotedList groups ++ " failed: " ++ e.message
  | .healthcheck e => "healthcheck errored: " ++ e.message
  | .rejected reason report =>
    "healthcheck rejected scheduling: " ++ reason ++ "\n" ++ report.text
  | .run e => e.message
  | .canceled stage => "orchestration canceled during " ++ stage.name ++ " stage"

/-- The stage that failed. -/
def stage : OrchestrationError → Stage
  | .validation _ => .validate
  | .unknownSelector _ => .resolve
  | .incompatible _ => .compatibility
  | .unsupportedSelector _ _ => .build
  | .config s _ => s
  | .build _ _ => .build
  | .healthcheck _ => .healthcheck
  | .rejected _ _ => .healthcheck
  | .run _ => .run
  | .canceled s => s

/-- The error is in the configuration. -/
def isConfiguration : OrchestrationError → Bool
  | .validation _ => true
  | .unknownSelector _ => true
  | .incompatible _ => true
  | .unsupportedSelector _ _ => true
  | .config _ _ => true
  | _ => false

/-- The error says no more than that something was canceled. -/
def isCanceled : OrchestrationError → Bool
  | .canceled _ => true
  | .build _ .canceled => true
  | .run .canceled => true
  | .healthcheck .canceled => true
  | _ => false

end OrchestrationError

end Conductor
