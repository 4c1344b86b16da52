import Conductor.Build.Basic
import Conductor.Engine.Lifecycle
/-!
# Engine — the ledger

What an engine remembers from call to call: the finished builds by their
fingerprints, its metrics, and how many builds it has started. Nothing is ever
taken out of the ledger.
-/

namespace Conductor

/-- The memory of an engine. -/
structure Ledger where
  /-- Finished builds by fingerprint. -/
  cache : Table BuildResult
  metrics : Metrics
  /-- The builds started so far, which is the number of the next. -/
  started : Nat

namespace Ledger

/-- The ledger of an engine that has done nothing. -/
def empty : Ledger := ⟨[], .zero, 0⟩

/-- Notes that a build was found in the cache. -/
def countHit (l : Ledger) : Ledger :=
  { l with metrics := { l.metrics with cacheHits := l.metrics.cacheHits + 1 } }

/-- Notes that a build starts. -/
def countStart (l : Ledger) : Ledger := { l with started := l.started + 1 }

/-- Enters a finished build. -/
def enter (l : Ledger) (r : BuildResult) : Ledger :=
  { l with
    cache := l.cache.insert r.fingerprint r
    metrics := { l.metrics with buildsExecuted := l.metrics.buildsExecuted + 1 } }

/-- Notes that a run is complete, and how many of its instances failed. -/
def countRun (l : Ledger) (failed : Nat) : Ledger :=
  { l with
    metrics := { l.metrics with
      runsCompleted := l.metrics.runsCompleted + 1
      instancesFailed := l.metrics.instancesFailed + failed } }

end Ledger

end Conductor
