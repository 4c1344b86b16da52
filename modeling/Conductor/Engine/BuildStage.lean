import Conductor.Engine.Effect
import Conductor.Engine.Ledger
import Conductor.Engine.Plan
/-!
# Engine — the build stage

The units of a plan go through the build stage side by side. Each is looked for
in the cache; those that are not there are started, in the order of the plan,
and end in any order. An ended build is joined: its artifact is entered in the
ledger, or its failure cancels the builds that still go on. When all have been
joined, the stage has the results in the order of the plan, or the failure.

The failure that counts is the first one joined that is more than a
cancellation, so that a build is not blamed for what another has caused.
-/

namespace Conductor

/-- How the task of a build ends: the builder returns, or the task breaks down. -/
inductive BuildEnd
  | returned (result : Except BuildError BuildOutput)
  | broke (message : String)

/-- The task of a build has given an artifact. -/
def BuildEnd.isSuccess : BuildEnd → Bool
  | .returned (.ok _) => true
  | _ => false

/-- How far a unit is. -/
inductive UnitProgress
  /-- It has not been looked for. -/
  | planned
  /-- It is not in the cache. -/
  | missing
  /-- It is being built, as the build with the number given. -/
  | building (build : Nat)
  /-- Its task has ended. -/
  | ended (build : Nat) (how : BuildEnd)
  /-- It is done, with a result unless it failed. -/
  | joined (result : Option BuildResult)

namespace UnitProgress

/-- It has not been looked for. -/
def isPlanned : UnitProgress → Bool
  | .planned => true
  | _ => false

/-- It has been looked for in vain. -/
def isMissing : UnitProgress → Bool
  | .missing => true
  | _ => false

/-- It is done. -/
def isJoined : UnitProgress → Bool
  | .joined _ => true
  | _ => false

/-- The result, when there is one. -/
def result? : UnitProgress → Option BuildResult
  | .joined r => r
  | _ => none

end UnitProgress

/-- A unit in the stage. -/
structure BuildSlot where
  unit : BuildUnit
  progress : UnitProgress

/-- The failure of a build stage: the groups whose build failed, none when a
task broke down. -/
structure BuildFailure where
  groups : List String
  error : BuildError

/-- The units of a plan on their way. -/
structure BuildStage where
  builder : Selector
  plan : String
  /-- The directory with the sources of the plan. -/
  source : String
  slots : List BuildSlot
  /-- The builds are canceled, whether or not the run is. -/
  canceled : Bool
  failure : Option BuildFailure

/-- The result of a unit from the result of another with the same fingerprint. -/
def BuildResult.forGroups (r : BuildResult) (groupIds : List String) : BuildResult :=
  { r with groupIds }

namespace BuildStage

/-- A stage in which nothing has happened yet. -/
def ofPlan (builder : Selector) (plan source : String) (units : List BuildUnit) : BuildStage :=
  ⟨builder, plan, source, units.map fun u => ⟨u, .planned⟩, false, none⟩

/-- The stage with a unit in a new state. -/
def put (s : BuildStage) (unit : Nat) (p : UnitProgress) : BuildStage :=
  { s with slots := s.slots.modify unit fun slot => { slot with progress := p } }

/-- What the builder is asked for a unit. -/
def inputOf (s : BuildStage) (u : BuildUnit) (build : Nat) : BuildInput where
  build := build
  plan := s.plan
  source := s.source
  groupIds := u.groupIds
  selectors := u.selectors
  dependencies := u.dependencies
  config := .object u.config
  fingerprint := u.fingerprint

/-- The result that an output is for a unit. -/
def resultOf (s : BuildStage) (u : BuildUnit) (out : BuildOutput) : BuildResult where
  builder := s.builder
  artifact := out.artifact
  groupIds := u.groupIds
  fingerprint := u.fingerprint
  dependencies := out.dependencies

/-- Looks for a unit in the cache. -/
def look (s : BuildStage) (l : Ledger) (i : Nat) (u : BuildUnit) :
    BuildStage × Ledger × List Effect :=
  match l.cache.get? u.fingerprint with
  | some hit =>
    (s.put i (.joined (some (hit.forGroups u.groupIds))), l.countHit,
      [.event (.buildCached u.fingerprint)])
  | none => (s.put i .missing, l, [])

/-- Starts the build of a unit. -/
def launch (s : BuildStage) (l : Ledger) (i : Nat) (u : BuildUnit) :
    BuildStage × Ledger × List Effect :=
  (s.put i (.building l.started), l.countStart,
    [.event (.buildStarted l.started s.builder u.groupIds),
      .build s.builder i (s.inputOf u l.started)])

/-- The place of the first unit whose progress is as asked. -/
def first? (s : BuildStage) (p : UnitProgress → Bool) : Option Nat :=
  s.slots.findIdx? fun slot => p slot.progress

/-- The next unit is looked for, or, when all have been, the next one that is
missing is started; nothing when there is none. -/
def proceed (s : BuildStage) (l : Ledger) : Option (BuildStage × Ledger × List Effect) :=
  match s.first? UnitProgress.isPlanned with
  | some i => s.slots[i]?.map fun slot => s.look l i slot.unit
  | none =>
    match s.first? UnitProgress.isMissing with
    | some i => s.slots[i]?.map fun slot => s.launch l i slot.unit
    | none => none

/-- Every unit has been looked for and, if need be, started. -/
def isLaunched (s : BuildStage) : Bool :=
  !s.slots.any fun slot => slot.progress.isPlanned || slot.progress.isMissing

/-- The task of a unit ends. A task that breaks down is not reported. -/
def finish (s : BuildStage) (i : Nat) (how : BuildEnd) : Option (BuildStage × List Effect) :=
  match s.slots[i]? with
  | some ⟨_, .building n⟩ =>
    some (s.put i (.ended n how),
      match how with
      | .returned _ => [.event (.buildFinished n how.isSuccess)]
      | .broke _ => [])
  | _ => none

/-- A failure after the earlier one, if there was one: a cancellation gives way
to anything else. -/
def BuildFailure.after (new : BuildFailure) : Option BuildFailure → BuildFailure
  | none => new
  | some old => if old.error = .canceled then if new.error = .canceled then old else new else old

/-- The failure that a task which broke down is, after an earlier one. The message
leaves the number of the task open, for it means nothing outside the stage. -/
def breakdown (message : String) : Option BuildFailure → BuildFailure
  | some old => old
  | none =>
    ⟨[], .failed ["build task join error: task N panicked with message " ++ Text.quoted message]⟩

/-- Joins a unit whose task has ended; the others have been started by then. -/
def join (s : BuildStage) (l : Ledger) (i : Nat) : Option (BuildStage × Ledger) :=
  match s.isLaunched, s.slots[i]? with
  | true, some ⟨u, .ended _ how⟩ =>
    match how with
    | .returned (.ok out) =>
      let r := s.resultOf u out
      some (s.put i (.joined (some r)), l.enter r)
    | .returned (.error e) =>
      some ({ s.put i (.joined none) with
        canceled := true
        failure := some (BuildFailure.after ⟨u.groupIds, e⟩ s.failure) }, l)
    | .broke message =>
      some ({ s.put i (.joined none) with
        canceled := true
        failure := some (breakdown message s.failure) }, l)
  | _, _ => none

/-- All units are done. -/
def isOver (s : BuildStage) : Bool := s.slots.all fun slot => slot.progress.isJoined

/-- What the stage gives when it is over; `canceled` says whether the run is
canceled by then. -/
def outcome (s : BuildStage) (canceled : Bool) : Except OrchestrationError (List BuildResult) :=
  match s.failure with
  | some f => .error (if canceled then .canceled .build else .build f.groups f.error)
  | none => .ok (s.slots.filterMap fun slot => slot.progress.result?)

end BuildStage

end Conductor
