import Conductor.Config.Home
import Conductor.Engine.Error
import Conductor.Engine.Registry
import Conductor.Local.Children
import Conductor.Local.Config
import Conductor.Local.Instance
import Conductor.Run.Collector
import Conductor.Run.Instances
/-!
# Local backends — the runner

The local runner starts one process for every instance, in the order of the
instances. Each has a directory of its own for its outputs, and learns about its
run from variables. An instance that cannot be started does not stop the others.
The run may be canceled at any time; the runner looks before each instance, and
then leaves the others alone.
-/

namespace Conductor

namespace Local

/-- What is run for an instance. -/
structure Command where
  program : String
  args : List String
  env : Table String

/-- A process that was started: what it writes, and whether it has exited by the
time when all have been started. -/
structure Process where
  output : OctetStream
  errors : OctetStream
  exited : Bool

/-- What the operating system does with a command. -/
abbrev Launcher := FileTree → Command → Except FileFault Process × FileTree

/-! ## Input -/

/-- Why a group cannot be run. -/
def groupFault? (g : RunGroup) : Option RunError :=
  if g.artifact.isEmpty then some (.invalidInput ("group " ++ g.id ++ " has no artifact"))
  else
    match runnerConfig g.config with
    | .ok _ => none
    | .error e => some (.invalidInput e.message)

/-- Why an input cannot be run. -/
def inputFault? (input : RunInput) : Option RunError :=
  if input.groups.isEmpty then some (.invalidInput "no groups to run")
  else input.groups.findSome? groupFault?

/-! ## Instances -/

/-- The variables of an instance. What the runner tells about the run cannot be
set by the configuration. -/
def environment (input : RunInput) (g : RunGroup) (config : RunnerConfig) (outputs : String) :
    Table String :=
  (Table.overlay config.env (instanceEnv input g)).insert "TEST_OUTPUTS_PATH" outputs

/-- The command of an instance. -/
def commandOf (input : RunInput) (g : RunGroup) (config : RunnerConfig) (outputs : String) :
    Command :=
  ⟨g.artifact, config.args, environment input g config outputs⟩

/-- Starts an instance: makes the directory of its outputs, and runs its command. -/
def startInstance (launcher : Launcher) (d : Directories) (input : RunInput) (s : InstanceSlot)
    (t : FileTree) : Except RunError Process × FileTree :=
  let config := match runnerConfig s.group.config with
    | .ok c => c
    | .error _ => ⟨[], []⟩
  let outputs := d.instanceOutputs input.runId s.group.id s.seq
  match t.createAll outputs with
  | (.error e, t) =>
    (.error (.failed ["creating outputs dir " ++ outputs ++ ": " ++ e.message]), t)
  | (.ok (), t) =>
    match launcher t (commandOf input s.group config outputs) with
    | (.ok p, t) => (.ok p, t)
    | (.error e, t) => (.error (.failed [s.group.artifact ++ ": " ++ e.message]), t)

/-! ## Runs -/

/-- An instance for which the runner has done what it could. -/
structure Launch where
  slot : InstanceSlot
  result : Except RunError Process

namespace Launch

/-- The instance has been started. -/
def isStarted (l : Launch) : Bool :=
  match l.result with
  | .ok _ => true
  | .error _ => false

/-- What the collector of the run is told. -/
def action (l : Launch) : Collector.Action :=
  match l.result with
  | .ok p => .manage l.slot.id p.output p.errors
  | .error e => .failStart l.slot.id e.message

end Launch

/-- What comes of a run. -/
structure Run where
  launches : List Launch
  result : Except RunError RunOutput

/-- Starts instances in order, until the run is canceled; `canceled` says whether
it is when the instance at a place is about to be started. -/
def launchAll (launcher : Launcher) (d : Directories) (input : RunInput) (canceled : Nat → Bool) :
    (place : Nat) → FileTree → List InstanceSlot → List Launch × Bool × FileTree
  | _, t, [] => ([], false, t)
  | place, t, s :: rest =>
    if canceled place then ([], true, t)
    else
      let (result, t) := startInstance launcher d input s t
      let (launches, stopped, t) := launchAll launcher d input canceled (place + 1) t rest
      (⟨s, result⟩ :: launches, stopped, t)

/-- How many instances have been started, and how many have not. -/
def outputOf (runId : String) (launches : List Launch) : RunOutput :=
  ⟨runId, (launches.filter Launch.isStarted).length,
    (launches.filter fun l => !l.isStarted).length⟩

/-- Runs an input. An input with a fault is refused before anything is done. -/
def run (launcher : Launcher) (d : Directories) (canceled : Nat → Bool) (input : RunInput)
    (t : FileTree) : Run × FileTree :=
  match inputFault? input with
  | some e => (⟨[], .error e⟩, t)
  | none =>
    let (launches, stopped, t) := launchAll launcher d input canceled 0 t input.slots
    (⟨launches, if stopped then .error .canceled else .ok (outputOf input.runId launches)⟩, t)

/-- Keeps the processes of a run, and forgets those that have exited before. A
refused input changes nothing. -/
def Children.afterRun (c : Children) (input : RunInput) (r : Run) : Children :=
  match inputFault? input with
  | some _ => c
  | none =>
    r.launches.foldl (fun c l =>
      match l.result with
      | .ok p =>
        let started := c.start input.runId l.slot.id
        if p.exited then started.exit c.next else started
      | .error _ => c) c.reap

/-! ## Registration -/

/-- The items of the runner's health check: the directories that it needs. -/
def healthDirectories (d : Directories) : List (String × String) :=
  [("local-outputs-dir", d.outputs), ("local-work-dir", d.work)]

/-- The runner as the engine sees it. -/
def runner (d : Directories) : Runner where
  id := runnerId
  compatible := ["exec"]
  accepts config := (runnerConfig (.object config)).map fun _ => ()
  health := some ((healthDirectories d).map fun x => ⟨x.1, true⟩)

/-- The builder as the engine sees it. -/
def builder : Builder where
  id := builderId
  selectors := []
  accepts config := (builderConfig (.object config)).map fun _ => ()

/-- A registry with the local backends. -/
def registry (d : Directories) : Registry :=
  (Registry.empty.addBuilder builder).addRunner (runner d)

end Local

end Conductor
