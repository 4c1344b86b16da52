import Conductor.Engine.BuildStage
import Conductor.Engine.RunOrder
import Conductor.Health.Checkup
import Conductor.Run.Collector
/-!
# Engine — calls

A call is one request to the engine on its way to a result: to build and run a
composition, to build it only, or to check the health of a runner. It goes
through stages, and ends at the first that fails:

* the composition is validated, its components are found and fit each other, and
  its builds are planned;
* the build stage;
* the health of the runner is checked, if the policy asks for it;
* the input of the run is prepared;
* the runner starts the instances, and their output is collected until all have
  finished.

`Call.step` is one step of a call: either its own next step, or something that
happens to it. The run may be canceled at any time. What a call does to the
world is a list of effects; what it leaves for later calls is in the ledger.
-/

namespace Conductor

/-- What a caller may choose. -/
structure CallOptions where
  /-- The directory with the sources of the plan, in place of that of the home. -/
  source : Option String
  /-- When to go on after a health check, in place of what the environment says. -/
  policy : Option HealthPolicy
  /-- The log is shown while it grows. -/
  echo : Bool

/-- A request to the engine. -/
inductive Request
  | orchestrate (composition : Composition) (options : CallOptions)
  | build (composition : Composition) (options : CallOptions)
  | checkHealth (runner : Selector) (fix : Bool)

/-- What is known of a run when it is complete. -/
structure RunReport where
  runId : String
  outcome : RunOutcome
  instances : Table Verdict
  log : Array LogEntry
  builds : List BuildResult
  /-- The report of the health check, if there was one. -/
  health : Option HealthReport

/-- What a request is answered. -/
inductive Answer
  | report (report : RunReport)
  | builds (builds : List BuildResult)
  /-- Nothing when the runner has no health check. -/
  | health (report : Option HealthReport)

/-- A run on its way. -/
structure RunProgress where
  order : RunOrder
  builds : List BuildResult
  health : Option HealthReport

/-- How far a call is. -/
inductive CallPhase
  /-- The builds go on; the run that is wanted then, if one is. -/
  | building (order : Option RunOrder) (stage : BuildStage)
  /-- The health of the runner is being checked before a run. -/
  | gated (order : RunOrder) (builds : List BuildResult)
  /-- The health of a runner is being checked, and nothing more. -/
  | examining (runner : Selector)
  /-- The runner is starting instances. -/
  | running (progress : RunProgress)
  /-- The instances have been started, and their output is being collected. -/
  | collecting (progress : RunProgress)
  /-- The call has its result. -/
  | finished (result : Except OrchestrationError Answer)

/-- A call. -/
structure Call where
  runId : String
  /-- The run is canceled. -/
  canceled : Bool
  /-- The log is shown while it grows. -/
  echo : Bool
  /-- The instances of the run. -/
  collector : Collector
  phase : CallPhase

/-- Something that happens to a call. -/
inductive CallInput
  /-- The run is canceled. -/
  | cancel
  /-- The call takes its own next step. -/
  | proceed
  /-- The task of a unit ends. -/
  | finish (unit : Nat) (how : BuildEnd)
  /-- The call joins a unit whose task has ended. -/
  | join (unit : Nat)
  /-- The health of the runner has been checked. -/
  | examined (result : HealthResult)
  /-- The runner starts an instance, or a consumer of one acts. -/
  | collect (action : Collector.Action)
  /-- The streams that stayed open are closed. -/
  | hangUp
  /-- The runner has started what it could. -/
  | returned (result : Except RunError RunOutput)

namespace Call

/-- A call with an effect on the ledger and on the world. -/
abbrev Outcome := Ledger × Call × List Effect

/-- The call in another phase. -/
def enter (c : Call) (p : CallPhase) : Call := { c with phase := p }

/-- The result is an answer. -/
def succeed (c : Call) (a : Answer) : Call := c.enter (.finished (.ok a))

/-- The result is an error, which nobody but the caller hears of. -/
def fail (c : Call) (e : OrchestrationError) : Call := c.enter (.finished (.error e))

/-- The report that a stage has failed. -/
def failureEvent (e : OrchestrationError) : Effect := .event (.stageFailed e.stage e.message)

/-- An orchestration ends with an error, and the failed stage is reported. -/
def abort (c : Call) (e : OrchestrationError) : Call × List Effect := (c.fail e, [failureEvent e])

/-- The builds of the call are canceled. -/
def buildsCanceled (c : Call) : Bool :=
  match c.phase with
  | .building _ stage => c.canceled || stage.canceled
  | _ => c.canceled

/-! ## The stages -/

/-- Prepares the run and asks the runner to start it. -/
def startRun (e : Engine) (c : Call) (p : RunProgress) : Call × List Effect :=
  match p.order.input e c.runId p.builds with
  | .error error => c.abort error
  | .ok input =>
    if c.canceled then c.abort (.canceled .run)
    else
      (c.enter (.running p),
        [.event (.runStarted c.runId input.plan input.case p.order.runner.id input.total),
          .run p.order.runner.id input])

/-- Checks the health of the runner, or starts the run if that is not asked for. -/
def gate (e : Engine) (c : Call) (o : RunOrder) (builds : List BuildResult) :
    Call × List Effect :=
  if o.policy.enabled ∧ o.runner.health.isSome then
    (c.enter (.gated o builds), [.examine o.runner.id o.policy.fix])
  else c.startRun e ⟨o, builds, none⟩

/-- The build stage is over. -/
def concludeBuilds (e : Engine) (c : Call) (o : Option RunOrder) (s : BuildStage) :
    Call × List Effect :=
  match o, s.outcome c.canceled with
  | some _, .error error => c.abort error
  | none, .error error => (c.fail error, [])
  | some o, .ok builds => c.gate e o builds
  | none, .ok builds => (c.succeed (.builds builds), [])

/-- The health of the runner is known. -/
def passGate (e : Engine) (c : Call) (o : RunOrder) (builds : List BuildResult)
    (r : HealthResult) : Call × List Effect :=
  match r with
  | .error error => c.abort (.healthcheck error)
  | .ok report =>
    let told := Effect.event (.healthcheckEvaluated o.runner.id report)
    let (c, effects) := match o.policy.rejection? report with
      | some reason => c.abort (.rejected reason.text report)
      | none => c.startRun e ⟨o, builds, some report⟩
    (c, told :: effects)

/-- The number of failed instances in an outcome. -/
def failedOf : RunOutcome → Nat
  | .failure n => n
  | _ => 0

/-- All instances have finished. If the run is canceled the runner is asked to
stop what may be left. -/
def concludeRun (l : Ledger) (c : Call) (p : RunProgress) : Outcome :=
  let outcome := c.collector.outcome c.canceled
  let failed := failedOf outcome
  let l := l.countRun failed
  (l, c.succeed (.report
      ⟨c.runId, outcome, c.collector.verdicts, c.collector.log, p.builds, p.health⟩),
    (if c.canceled then [.terminate p.order.runner.id] else []) ++
      [.event (.metricsFlushed l.metrics), .event (.runFinished c.runId outcome failed)])

/-- The runner returns. A cancellation that it reports cancels the run, and the
instances that it has started are still waited for; any other error ends the call. -/
def endRun (c : Call) (p : RunProgress) : Except RunError RunOutput → Call × List Effect
  | .ok _ => (c.enter (.collecting p), [])
  | .error .canceled => ({ c with canceled := true }.enter (.collecting p), [])
  | .error e =>
    let (c, effects) := c.abort (.run e)
    (c, .terminate p.order.runner.id :: effects)

/-! ## Beginnings -/

/-- A call without instances. -/
def opened (runId : String) (canceled echo : Bool) (phase : CallPhase) : Call :=
  ⟨runId, canceled, echo, .empty, phase⟩

/-- The stage in which the builds of a composition begin. -/
def planned (e : Engine) (canceled : Bool) (v : ValidComposition) (b : Builder)
    (o : CallOptions) : Except OrchestrationError BuildStage := do
  let units ← e.planBuilds v b
  if canceled then throw (.canceled .build)
  let plan := v.composition.settings.plan
  return .ofPlan b.id plan (e.sourceOf plan o.source) units

/-- The components of an orchestration: found, and fit for each other. -/
def components (e : Engine) (v : ValidComposition) :
    Except OrchestrationError (Builder × Runner) := do
  let b ← (e.registry.builder v.builder).mapError .unknownSelector
  match v.runner with
  | none => throw (.validation [.malformedSelector .runner .empty])
  | some s =>
    let r ← (e.registry.runner s).mapError .unknownSelector
    (r.checkCompatible v.builder).mapError .incompatible
    return (b, r)

/-- The policy for a run. -/
def policyOf (e : Engine) (o : CallOptions) : HealthPolicy :=
  o.policy.getD e.environment.service.policy

/-- The first phase of an orchestration. -/
def beginRun (e : Engine) (canceled : Bool) (c : Composition) (o : CallOptions) :
    Except OrchestrationError CallPhase := do
  let v ← c.validate.mapError .validation
  let (b, r) ← components e v
  let stage ← planned e canceled v b o
  return .building (some ⟨v, r, policyOf e o⟩) stage

/-- The first phase of a build without a run. -/
def beginBuild (e : Engine) (canceled : Bool) (c : Composition) (o : CallOptions) :
    Except OrchestrationError CallPhase := do
  let v ← c.validateForBuild.mapError .validation
  let b ← (e.registry.builder v.builder).mapError .unknownSelector
  let stage ← planned e canceled v b o
  return .building none stage

/-- The first phase of a check of health, and what it asks for. -/
def beginCheck (e : Engine) (runner : Selector) (fix : Bool) : CallPhase × List Effect :=
  match e.registry.runner runner with
  | .error error => (.finished (.error (.unknownSelector error)), [])
  | .ok r =>
    if r.health.isSome then (.examining r.id, [.examine r.id fix])
    else (.finished (.ok (.health none)), [])

/-- A call begins. -/
def start (e : Engine) (runId : String) (canceled : Bool) : Request → Call × List Effect
  | .orchestrate c o =>
    match beginRun e canceled c o with
    | .ok phase => (opened runId canceled o.echo phase, [])
    | .error error =>
      (opened runId canceled o.echo (.finished (.error error)), [failureEvent error])
  | .build c o =>
    match beginBuild e canceled c o with
    | .ok phase => (opened runId canceled false phase, [])
    | .error error => (opened runId canceled false (.finished (.error error)), [])
  | .checkHealth runner fix =>
    let (phase, effects) := beginCheck e runner fix
    (opened runId canceled false phase, effects)

/-! ## Steps -/

/-- The call takes its own next step, if it has one that it need not wait for. -/
def proceed (e : Engine) (l : Ledger) (c : Call) : Option Outcome :=
  match c.phase with
  | .building o s =>
    match s.proceed l with
    | some (s, l, effects) => some (l, c.enter (.building o s), effects)
    | none =>
      if s.isOver then
        let (c, effects) := c.concludeBuilds e o s
        some (l, c, effects)
      else none
  | .collecting p => if c.collector.isDone then some (c.concludeRun l p) else none
  | _ => none

/-- The effects of an action of the collector: the lines that it adds to the log,
if they are shown, and the verdicts that became final. -/
def collectEffects (echo : Bool) (old new : Collector) (said : List Collector.Announcement) :
    List Effect :=
  (if echo then (new.log.toList.drop old.log.size).map .echo else []) ++
    said.map fun a => .event (.instanceVerdict a.1 a.2)

/-- Only a runner at work starts instances. -/
def mayCollect (c : Call) : Collector.Action → Bool
  | .manage _ _ _ | .failStart _ _ =>
    match c.phase with
    | .running _ => true
    | _ => false
  | .read _ _ | .quit _ _ => true

/-- The runner starts an instance, or a consumer acts. The consumers go on when
the call has ended. -/
def collect (c : Call) (a : Collector.Action) : Option (Call × List Effect) :=
  if c.mayCollect a then
    (c.collector.act c.canceled a).map fun r =>
      ({ c with collector := r.1 }, collectEffects c.echo c.collector r.1 r.2)
  else none

/-- One step of a call. -/
def step (e : Engine) (l : Ledger) (c : Call) : CallInput → Option Outcome
  | .cancel => some (l, { c with canceled := true }, [])
  | .proceed => c.proceed e l
  | .finish unit how =>
    match c.phase with
    | .building o s => (s.finish unit how).map fun r => (l, c.enter (.building o r.1), r.2)
    | _ => none
  | .join unit =>
    match c.phase with
    | .building o s => (s.join l unit).map fun r => (r.2, c.enter (.building o r.1), [])
    | _ => none
  | .examined r =>
    match c.phase with
    | .gated o builds =>
      let (c, effects) := c.passGate e o builds r
      some (l, c, effects)
    | .examining runner =>
      match r with
      | .ok report =>
        some (l, c.succeed (.health (some report)),
          [.event (.healthcheckEvaluated runner report)])
      | .error error => some (l, c.fail (.healthcheck error), [])
    | _ => none
  | .collect a => (c.collect a).map fun r => (l, r.1, r.2)
  | .hangUp => some (l, { c with collector := c.collector.closeStreams }, [])
  | .returned r =>
    match c.phase with
    | .running p =>
      let (c, effects) := c.endRun p r
      some (l, c, effects)
    | _ => none

end Call

end Conductor
