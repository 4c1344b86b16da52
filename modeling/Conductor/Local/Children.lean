import Conductor.Table
/-!
# Local backends — children

The local runner keeps the processes that it has started, by run, so that it can
say how many of a run are left and stop them. A process may exit at any time;
the runner finds out when it looks, and then forgets the process, and a run with
nothing left.
-/

namespace Conductor

namespace Local

/-- A process that was started: its number, the instance that it is, and whether
it has exited. -/
structure Child where
  process : Nat
  instanceId : String
  exited : Bool
  deriving DecidableEq

/-- The processes that are kept, by run. -/
structure Children where
  byRun : Table (List Child)
  /-- The number of the next process. -/
  next : Nat
  deriving DecidableEq

namespace Children

/-- No process has been started. -/
def empty : Children := ⟨[], 0⟩

/-- The processes kept for a run. -/
def ofRun (c : Children) (runId : String) : List Child := (c.byRun.get? runId).getD []

/-- The runs with what is left of them. -/
def alive (t : Table (List Child)) : Table (List Child) :=
  (t.map fun r => (r.1, r.2.filter fun k => !k.exited)).filter fun r => !r.2.isEmpty

/-- Forgets what has exited, and runs with nothing left. -/
def reap (c : Children) : Children := { c with byRun := alive c.byRun }

/-- Keeps a process of a run that has just been started. -/
def start (c : Children) (runId instanceId : String) : Children where
  byRun := c.byRun.insert runId (c.ofRun runId ++ [⟨c.next, instanceId, false⟩])
  next := c.next + 1

/-- A process exits. -/
def exit (c : Children) (process : Nat) : Children :=
  { c with
    byRun := c.byRun.map fun r =>
      (r.1, r.2.map fun k => if k.process = process then { k with exited := true } else k) }

/-- How many processes of a run are left. -/
def tracked (c : Children) (runId : String) : Nat × Children :=
  let c := c.reap
  ((c.ofRun runId).length, c)

/-- Forgets a run, and gives the processes that are to be killed. -/
def terminate (c : Children) (runId : String) : List Nat × Children :=
  ((c.ofRun runId).map Child.process, { c with byRun := c.byRun.erase runId })

end Children

end Local

end Conductor
