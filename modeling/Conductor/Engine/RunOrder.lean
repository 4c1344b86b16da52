import Conductor.Engine.Plan
import Conductor.Run.Basic
/-!
# Engine — run orders

A run order is what an orchestration wants of its runner. When the builds are
there it becomes the input of the run: every group of the composition, in order,
with its size, its artifact, its parameters and its configuration. The runner
has to accept the configuration of the run and that of each group.
-/

namespace Conductor

/-- A run that is wanted. -/
structure RunOrder where
  composition : ValidComposition
  runner : Runner
  policy : HealthPolicy

namespace RunOrder

/-- The configuration of the run: that of the environment, and that of the composition. -/
def config (o : RunOrder) (e : Engine) : ConfigTable :=
  ConfigTable.coalesce
    [e.environment.runnerLayer o.runner.id, o.composition.composition.settings.runConfig]

/-- The configuration of a group in the run. -/
def groupConfig (o : RunOrder) (e : Engine) (g : Group) : ConfigTable :=
  ConfigTable.coalesce
    [e.environment.runnerLayer o.runner.id, o.composition.composition.settings.runConfig,
      g.runConfig]

/-- The artifact of a group: its own, or the one built for it. -/
def artifactOf (builds : List BuildResult) (g : Group) : String :=
  match g.run.artifact with
  | some artifact => artifact
  | none =>
    match builds.find? fun b => b.groupIds.contains g.id with
    | some b => b.artifact
    | none => ""

/-- A group as the runner is to see it, which is the one at the index given. -/
def groupInput (o : RunOrder) (e : Engine) (builds : List BuildResult) (index : Nat) (g : Group) :
    RunGroup where
  id := g.id
  instances := o.composition.count index
  artifact := artifactOf builds g
  parameters := g.run.parameters
  config := .object (o.groupConfig e g)

/-- The configurations that the runner has to accept, in the order in which it is asked. -/
def configs (o : RunOrder) (e : Engine) : List ConfigTable :=
  o.config e :: o.composition.composition.groups.map (o.groupConfig e)

/-- The first complaint of the runner about a configuration. -/
def refusal? (o : RunOrder) (e : Engine) : Option ConfigError :=
  (o.configs e).findSome? fun config =>
    match o.runner.accepts config with
    | .ok () => none
    | .error error => some error

/-- The input of the run, unless the runner refuses a configuration. -/
def input (o : RunOrder) (e : Engine) (runId : String) (builds : List BuildResult) :
    Except OrchestrationError RunInput :=
  match o.refusal? e with
  | some error => .error (.config .run error)
  | none =>
    let c := o.composition.composition
    .ok {
      runId
      plan := c.settings.plan
      case := c.settings.case
      total := o.composition.total
      groups := c.groups.mapIdx (o.groupInput e builds)
      config := .object (o.config e) }

end RunOrder

end Conductor
