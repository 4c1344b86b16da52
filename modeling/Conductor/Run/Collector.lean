import Conductor.Log.Entry
import Conductor.Log.Framing
import Conductor.Run.Verdict
/-!
# Runs — the collector

The collector turns the output of the instances of a run into a log and one
verdict for each. Every instance has two consumers, one for each of its output
streams, and any of them may take its next step at any time: it reads a line, or
notices that the run has been canceled. A line on standard error is an error and
no more; a line on standard output may change the state of the instance, and
when that stream is done the state becomes the verdict.

`Collector.act` is one such step, so that a run of the collector is a list of
actions, in whatever order the instances and the scheduler bring them about.
-/

namespace Conductor

/-- The two output streams of an instance. -/
inductive Channel
  | output
  | errors
  deriving DecidableEq

/-- A consumer: its instance, the stream it reads, and what standard output has
said of the instance so far. -/
structure Consumer where
  index : Nat
  instanceId : String
  channel : Channel
  state : Verdict
  stream : OctetStream
  deriving DecidableEq

/-- The state of an instance behind a line. A failure is never taken back. -/
def Verdict.after (v : Verdict) : LineEffect → Verdict
  | .passes => if v = .running then .passed else v
  | .fails => .failed
  | .none => v
  | .stops => v

/-- The instances of a run, with what is known of them. -/
structure Collector where
  /-- The number of instances registered. -/
  count : Nat
  /-- The number of instances that failed. -/
  failed : Nat
  verdicts : Table Verdict
  /-- The log in order of arrival. -/
  log : Array LogEntry
  /-- The consumers that have not finished. -/
  consumers : List Consumer

namespace Collector

/-- The collector of a run that begins. -/
def empty : Collector := ⟨0, 0, [], #[], []⟩

/-- What can happen to a collector. -/
inductive Action
  /-- An instance has started. -/
  | manage (id : String) (output errors : OctetStream)
  /-- An instance could not be started. -/
  | failStart (id reason : String)
  /-- A consumer reads the next line of its stream. -/
  | read (index : Nat) (channel : Channel)
  /-- A consumer notices that the run is canceled. -/
  | quit (index : Nat) (channel : Channel)
  deriving DecidableEq

/-- A verdict that has become final. -/
abbrev Announcement := String × Verdict

/-- The consumer of a stream, while it has not finished. -/
def consumer? (c : Collector) (index : Nat) (channel : Channel) : Option Consumer :=
  c.consumers.find? fun k => k.index = index && k.channel = channel

/-- The consumers other than that of a stream. -/
def without (c : Collector) (index : Nat) (channel : Channel) : List Consumer :=
  c.consumers.filter fun k => !(k.index = index && k.channel = channel)

/-- Puts a consumer in the place of the one for the same stream. -/
def update (c : Collector) (k : Consumer) : Collector :=
  { c with
    consumers := c.consumers.map fun x =>
      if x.index = k.index && x.channel = k.channel then k else x }

/-- The consumer has finished. -/
def drop (c : Collector) (k : Consumer) : Collector :=
  { c with consumers := c.without k.index k.channel }

/-- Enters a line of an instance in the log. -/
def record (c : Collector) (index : Nat) (id : String) (time : Option Instant) (cls : LineClass)
    (text : String) : Collector :=
  { c with log := c.log.push ⟨index, id, time, cls, text⟩ }

/-- Enters a line of a consumer that carries no time. -/
def note (c : Collector) (k : Consumer) (cls : LineClass) (text : String) : Collector :=
  c.record k.index k.instanceId none cls text

/-- Counts an instance, without anything about it. -/
def register (c : Collector) : Collector := { c with count := c.count + 1 }

/-- Registers an instance that has started. -/
def manage (c : Collector) (id : String) (output errors : OctetStream) : Collector :=
  { c.register with
    verdicts := c.verdicts.insert id .running
    consumers := c.consumers ++
      [⟨c.count, id, .errors, .running, errors⟩, ⟨c.count, id, .output, .running, output⟩] }

/-- Gives an instance its verdict. -/
def assign (c : Collector) (id : String) (v : Verdict) : Collector × List Announcement :=
  ({ c with
      failed := if v.isFailure then c.failed + 1 else c.failed
      verdicts := c.verdicts.insert id v }, [(id, v)])

/-- Registers an instance that could not be started. -/
def failStart (c : Collector) (id reason : String) : Collector × List Announcement :=
  (c.register.record c.count id none .incomplete ("failed to start: " ++ reason)).assign id .incomplete

/-- The standard output of an instance is done: its state is settled. An
instance that has not said how it finished is incomplete. -/
def settle (c : Collector) (k : Consumer) (state : Verdict) : Collector × List Announcement :=
  if state = .running then ((c.drop k).note k .incomplete "").assign k.instanceId .incomplete
  else (c.drop k).assign k.instanceId state

/-- A consumer of standard error reads on. -/
def readErrors (c : Collector) (k : Consumer) : Option Collector :=
  match k.stream.readLine with
  | .line (.text s) rest => some ((c.note k .error s).update { k with stream := rest })
  | .line (.oversized n) rest =>
    some ((c.note k .error (oversizedText n)).update { k with stream := rest })
  | .ended => some (c.drop k)
  | .broken reason => some ((c.note k .error reason).drop k)
  | .waiting => none

/-- A consumer of standard output reads on. -/
def readOutput (c : Collector) (k : Consumer) : Option (Collector × List Announcement) :=
  match k.stream.readLine with
  | .line (.text s) rest =>
    let l := classify s
    let c := c.record k.index k.instanceId l.time l.lineClass l.text
    let state := k.state.after l.effect
    if l.effect = .stops then some (c.settle k state)
    else some (c.update { k with state, stream := rest }, [])
  | .line (.oversized n) rest =>
    some ((c.note k .internalError (oversizedText n)).update { k with stream := rest }, [])
  | .ended => some (c.settle k k.state)
  | .broken reason =>
    some ((c.note k .internalError ("stdout error: " ++ reason)).settle k k.state)
  | .waiting => none

/-- A consumer reads on. -/
def read (c : Collector) (k : Consumer) : Option (Collector × List Announcement) :=
  match k.channel with
  | .errors => (c.readErrors k).map fun c => (c, [])
  | .output => c.readOutput k

/-- A consumer stops because the run is canceled. An instance that has said how
it finished keeps its verdict. -/
def quit (c : Collector) (k : Consumer) : Collector × List Announcement :=
  match k.channel with
  | .errors => (c.drop k, [])
  | .output => c.settle k (if k.state = .running then .canceled else k.state)

/-- One step, with the verdicts that became final in it. A consumer can notice
only what is so, and reads only what has arrived. -/
def act (canceled : Bool) (c : Collector) : Action → Option (Collector × List Announcement)
  | .manage id output errors => some (c.manage id output errors, [])
  | .failStart id reason => some (c.failStart id reason)
  | .read index channel => do c.read (← c.consumer? index channel)
  | .quit index channel => do
    let k ← c.consumer? index channel
    if canceled then some (c.quit k) else none

/-- All consumers have finished. -/
def isDone (c : Collector) : Bool := c.consumers.isEmpty

/-- The outcome of a run whose consumers have finished. A cancellation counts
when it cut an instance short, or came before there was any. -/
def outcome (c : Collector) (canceled : Bool) : RunOutcome :=
  if canceled ∧ (c.verdicts.isEmpty ∨ c.verdicts.any (·.2 = .canceled)) then .canceled
  else if 0 < c.failed then .failure c.failed
  else .success

/-- The streams that stayed open are closed. -/
def closeStreams (c : Collector) : Collector :=
  { c with
    consumers := c.consumers.map fun k =>
      if k.stream.ending = .silent then
        { k with stream := { k.stream with ending := .closed } }
      else k }

end Collector

end Conductor
