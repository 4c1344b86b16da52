import Conductor.Engine.Session
import Conductor.Rehearsal.Builders
import Conductor.Rehearsal.Consumers
import Conductor.Rehearsal.Examination
import Conductor.Rehearsal.Runners
/-!
# Rehearsal — performances

A performance is one call of a session from its beginning to its result, with
components that act by script. Everything that can happen happens in an order
that the scripts determine. There is one thread: the call itself goes on as far
as it can, then the builds that can go on do so one after another, and then the
consumers of the instances; and so round after round. Time passes only when
nothing else can happen, and then to the earliest moment for which something is
set. The run may be canceled at such a moment, and a performance lasts until it
has been.
-/

namespace Conductor

namespace Rehearsal

/-- The components of an engine by script. -/
structure Cast where
  build : Bench → Selector → BuildInput → BuildScript
  run : Bench → Selector → RunInput → RunScript × Bench
  task : Selector → HealthNeed → Option Task

/-- Where a build goes on. -/
inductive Cue
  /-- From its beginning. -/
  | opening
  /-- Behind its delay. -/
  | rested
  /-- Its delay was ended by a cancellation. -/
  | roused
  /-- It waited for the cancellation that has come. -/
  | released

/-- A build on its way. -/
structure Actor where
  unit : Nat
  script : BuildScript
  cue : Cue

/-- A call in the middle of its performance. -/
structure Performance where
  session : Session
  /-- The number of the call. -/
  call : Nat
  /-- What has been done since the call began. -/
  deeds : List Deed
  /-- The effects to which the components have not yet responded. -/
  requests : List Effect
  bench : Bench
  /-- The builds that can go on. -/
  ready : List Actor
  /-- The builds that wait to be canceled. -/
  waiting : List Actor
  /-- The builds that let time pass, each until a moment. -/
  resting : List (Nat × Actor)
  /-- The units whose builds have ended, in that order. -/
  ended : List Nat
  now : Nat
  /-- The moment at which the run is to be canceled. -/
  alarm : Option Nat

namespace Performance

/-! ## Steps of the session -/

/-- A component has to respond to the effect. -/
def isRequest : Effect → Bool
  | .event _ => false
  | .echo _ => false
  | _ => true

/-- The performance when the session has taken a step. -/
def follow (p : Performance) (r : Session × List Deed) : Performance :=
  { p with
    session := r.1
    deeds := p.deeds ++ r.2
    requests := p.requests ++ (r.2.map Deed.effect).filter isRequest }

/-- Lets something happen in the session, if it can. -/
def act? (e : Engine) (p : Performance) (i : Session.Input) : Option Performance :=
  (p.session.step e i).map p.follow

/-- Lets something happen in the session; nothing changes if it cannot. -/
def act (e : Engine) (p : Performance) (i : Session.Input) : Performance := (p.act? e i).getD p

/-- Something happens to the call. -/
def tell (e : Engine) (p : Performance) (i : CallInput) : Performance := p.act e (.call p.call i)

/-- The state of the call. -/
def state? (p : Performance) : Option Call := p.session.calls[p.call]?

/-- The builds of the call are canceled. -/
def buildsCanceled (p : Performance) : Bool := p.state?.any Call.buildsCanceled

/-- The call has its result. -/
def isFinished (p : Performance) : Bool :=
  match p.state?.map Call.phase with
  | some (.finished _) => true
  | _ => false

/-- Enters a line in the diary. -/
def note (p : Performance) (line : String) : Performance := { p with bench := p.bench.note line }

/-! ## Cancellation -/

/-- Builds that wait for a cancellation go on when it has come. -/
def rouse (p : Performance) : Performance :=
  if p.buildsCanceled then
    let (roused, resting) := p.resting.partition fun a => a.2.script.heeds
    { p with
      ready := p.ready ++ roused.map (fun a => { a.2 with cue := .roused }) ++
        p.waiting.map fun a => { a with cue := .released }
      waiting := []
      resting := resting }
  else p

/-- Cancels the run. -/
def cancel (e : Engine) (p : Performance) : Performance :=
  ({ p with bench := { p.bench with canceled := true } }.tell e .cancel).rouse

/-- Cancels the run if the bench says so. -/
def heedBench (e : Engine) (p : Performance) : Performance :=
  if p.bench.canceled then p.cancel e else p

/-- A checkup that waits notices that its caller is canceled. -/
def abandonCheckups (e : Engine) (p : Performance) : Performance :=
  p.session.checkups.foldl (fun p x => p.act e (.checkup x.1 .abandon)) p

/-! ## Components -/

/-- A check or a fix is done, and the checkup goes on. -/
def attend (e : Engine) (cast : Cast) (p : Performance) (runner : Selector) (n : HealthNeed) :
    Performance :=
  match cast.task runner n with
  | none => p
  | some task =>
    let (a, bench) := task.perform p.bench
    let p := { p with bench }.heedBench e
    match a with
    | some a => (p.act e (.checkup runner a)).act e (.checkup runner .invoke)
    | none => p

/-- A runner starts its instances and returns. -/
def perform (e : Engine) (cast : Cast) (p : Performance) (runner : Selector) (input : RunInput) :
    Performance :=
  let (script, bench) := cast.run p.bench runner input
  let p := script.starts.foldl (fun p a => p.tell e (.collect a)) { p with bench }
  let p := match script.label with
    | some line => p.note line
    | none => p
  let p := if script.cancelsRun then p.cancel e else p
  p.tell e (.returned script.result)

/-- A component responds to an effect. -/
def respond (e : Engine) (cast : Cast) (p : Performance) : Effect → Performance
  | .build builder unit input =>
    { p with ready := p.ready ++ [⟨unit, cast.build p.bench builder input, .opening⟩] }
  | .examine runner _ =>
    (p.act e (.checkup runner .turn)).act e (.checkup runner .invoke)
  | .attend runner n => p.attend e cast runner n
  | .run runner input => p.perform e cast runner input
  | .terminate _ => p.tell e .hangUp
  | .event _ => p
  | .echo _ => p

/-! ## The call -/

/-- The call goes on by one step, if it can: the components respond, an ended
build is joined, or the call proceeds. -/
def advance? (e : Engine) (cast : Cast) (p : Performance) : Option Performance :=
  match p.requests, p.ended with
  | r :: requests, _ => some ({ p with requests }.respond e cast r)
  | [], unit :: ended =>
    match p.act? e (.call p.call (.join unit)) with
    | some p => some { p with ended }.rouse
    | none => p.act? e (.call p.call .proceed)
  | [], [] => p.act? e (.call p.call .proceed)

/-- The call goes on as far as it can. -/
def advance (e : Engine) (cast : Cast) : (fuel : Nat) → Performance → Performance
  | 0, p => p
  | fuel + 1, p =>
    match p.advance? e cast with
    | some p => advance e cast fuel p
    | none => p

/-! ## Builds -/

/-- The build of a unit ends. -/
def conclude (e : Engine) (p : Performance) (unit : Nat) (how : BuildEnd) : Performance :=
  let p := p.tell e (.finish unit how)
  { p with ended := p.ended ++ [unit] }

/-- The build of a unit ends because it is canceled. -/
def giveUp (e : Engine) (p : Performance) (unit : Nat) : Performance :=
  p.conclude e unit (.returned (.error .canceled))

/-- A build does what comes last. -/
def close (e : Engine) (p : Performance) (a : Actor) : Performance :=
  let p := if a.script.cancelsRun then p.cancel e else p
  p.conclude e a.unit a.script.ending

/-- A build of a group enters a word about it in the diary. -/
def noteGroup (p : Performance) (a : Actor) (word : String) : Performance :=
  match a.script.label with
  | some group => p.note (word ++ " " ++ group)
  | none => p

/-- A build goes on behind its delay. -/
def goOn (e : Engine) (p : Performance) (a : Actor) : Performance :=
  if a.script.waits then
    if p.buildsCanceled then (p.noteGroup a "canceled").giveUp e a.unit
    else { p with waiting := p.waiting ++ [a] }
  else p.close e a

/-- A build goes on until it ends or waits for something. -/
def play (e : Engine) (p : Performance) (a : Actor) : Performance :=
  match a.cue with
  | .opening =>
    let p := p.noteGroup a "build"
    if a.script.delay = 0 then p.goOn e a
    else if a.script.heeds ∧ p.buildsCanceled then p.giveUp e a.unit
    else { p with resting := p.resting ++ [(p.now + a.script.delay, { a with cue := .rested })] }
  | .rested => p.goOn e a
  | .roused => p.giveUp e a.unit
  | .released => (p.noteGroup a "canceled").giveUp e a.unit

/-- The builds that can go on do so, in their order. -/
def playAll (e : Engine) : (fuel : Nat) → Performance → Performance
  | 0, p => p
  | fuel + 1, p =>
    match p.ready with
    | [] => p
    | a :: ready => playAll e fuel ({ p with ready }.play e a)

/-! ## Consumers -/

/-- One consumer acts until it has finished or waits. -/
def consumeOne (e : Engine) (call : Nat) (canceled : Bool) (index : Nat) (channel : Channel) :
    (fuel : Nat) → Performance → Performance
  | 0, p => p
  | fuel + 1, p =>
    let a : Collector.Action := if canceled then .quit index channel else .read index channel
    match p.act? e (.call call (.collect a)) with
    | some p => consumeOne e call canceled index channel fuel p
    | none => p

/-- The consumers of a call act, in the order in which they were started. -/
def consume (e : Engine) (p : Performance) (call : Nat) : Performance :=
  match p.session.calls[call]? with
  | none => p
  | some c =>
    c.collector.consumers.foldl
      (fun p k => consumeOne e call c.canceled k.index k.channel (k.stream.size + 1) p) p

/-- A consumer of a call can act. -/
def canConsume (c : Call) : Bool :=
  c.collector.consumers.any fun k => c.canceled || k.stream.readLine != .waiting

/-- The consumers of all calls act: those of a call that ended early go on. -/
def consumeAll (e : Engine) (p : Performance) : Performance :=
  (List.range p.session.calls.length).foldl (consume e) p

/-! ## Time -/

/-- The earliest of some moments. -/
def earliest : List Nat → Option Nat
  | [] => none
  | t :: ts => some (ts.foldl min t)

/-- Time passes to the next moment for which something is set, which then
happens; the cancellation of the run comes before all else. -/
def wait? (e : Engine) (p : Performance) : Option Performance :=
  (earliest (p.alarm.toList ++ p.resting.map Prod.fst)).map fun t =>
    let p := { p with now := t }
    let p := if p.alarm = some t then ({ p with alarm := none }.cancel e).abandonCheckups e else p
    let (due, resting) := p.resting.partition fun a => a.1 ≤ t
    { p with ready := p.ready ++ due.map Prod.snd, resting }

/-- Something can happen although no time passes. -/
def isBusy (p : Performance) : Bool := !p.ready.isEmpty || p.session.calls.any canConsume

/-- Round after round, until the call has its result and the run has been
canceled if it was to be, or nothing can happen any more. -/
def run (e : Engine) (cast : Cast) (bound : Nat) : (fuel : Nat) → Performance → Performance
  | 0, p => p
  | fuel + 1, p =>
    let p := advance e cast bound p
    if p.isFinished && p.alarm.isNone then p
    else if p.isBusy then run e cast bound fuel ((playAll e bound p).consumeAll e)
    else
      match p.wait? e with
      | some p => run e cast bound fuel p
      | none => p

end Performance

/-- When the run of a call is canceled from outside. -/
inductive Interruption
  | never
  /-- Before the call begins. -/
  | before
  /-- After the time given, in milliseconds. -/
  | after (delay : Nat)

/-- The run is canceled before the call. -/
def Interruption.isBefore : Interruption → Bool
  | .before => true
  | _ => false

/-- The moment of the cancellation, if there is one. -/
def Interruption.moment? : Interruption → Option Nat
  | .after delay => some delay
  | _ => none

/-- More than the number of steps that a call with a request can take: a few for
every unit and every item, of which there are no more than groups and items. -/
def stepBound (s : Session) (r : Request) : Nat :=
  let groups := match r with
    | .orchestrate c _ => c.groups.length
    | .build c _ => c.groups.length
    | .checkHealth _ _ => 0
  let items := s.checkups.foldr (fun x n => x.2.items.length + n) 0
  8 * (groups + items) + 16

/-- A call is performed. -/
def perform (e : Engine) (cast : Cast) (s : Session) (files : FileTree) (runId : String)
    (i : Interruption) (r : Request) : Performance :=
  let p : Performance :=
    { session := s, call := s.calls.length, deeds := [], requests := []
      bench := ⟨files, i.isBefore, []⟩
      ready := [], waiting := [], resting := [], ended := [], now := 0, alarm := i.moment? }
  let bound := stepBound s r
  Performance.run e cast bound bound (p.act e (.start runId i.isBefore r))

end Rehearsal

end Conductor
