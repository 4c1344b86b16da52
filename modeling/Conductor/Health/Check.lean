import Conductor.Causes
import Conductor.Health.Report
/-!
# Health — checks and fixes

The items of a health check are gone through one by one in their order: an item
is checked, and then fixed if it failed, has a fixer, and fixes are asked for.
An `Evaluation` is where this stands. It says what is needed next, takes the
answer, and so builds the report.
-/

namespace Conductor

/-- Why a check or a fix could not do its work. -/
structure CheckError where
  message : String
  causes : Causes
  deriving DecidableEq

/-- The text of such an error. -/
def CheckError.text (e : CheckError) : String :=
  e.message ++ "; error: " ++ Causes.text e.causes

/-- What a check found. -/
structure CheckOutcome where
  ok : Bool
  message : String
  deriving DecidableEq

/-- The answer of a check. -/
abbrev CheckResult := Except CheckError CheckOutcome

/-- The answer of a fix: what was done. -/
abbrev FixResult := Except CheckError String

/-- The status of an item behind its check. -/
def HealthStatus.ofCheck : CheckResult → HealthStatus
  | .ok o => if o.ok then .ok else .failed
  | .error _ => .aborted

/-- The entry for a check. -/
def HealthEntry.ofCheck (name : String) (r : CheckResult) : HealthEntry :=
  match r with
  | .ok o => ⟨name, HealthStatus.ofCheck r, o.message⟩
  | .error e => ⟨name, HealthStatus.ofCheck r, e.text⟩

/-- The entry for a fix that was tried. -/
def HealthEntry.ofFix (name : String) : FixResult → HealthEntry
  | .ok message => ⟨name, .ok, message⟩
  | .error e => ⟨name, .failed, e.text⟩

/-- The entry in place of a fix that is not tried, if there is one. -/
def HealthEntry.unfixed? (name : String) (fix : Bool) : HealthStatus → Option HealthEntry
  | .ok => if fix then some ⟨name, .unnecessary, ""⟩ else none
  | .aborted => if fix then some ⟨name, .omitted, "check aborted; fix not attempted"⟩ else none
  | .failed => if fix then none else some ⟨name, .omitted, "fix not requested"⟩
  | _ => none

/-- A health check was canceled before all its checks ran. -/
inductive HealthError
  | canceled
  deriving DecidableEq

/-- The message of a health error. -/
def HealthError.message : HealthError → String
  | .canceled => "healthcheck canceled before all checks ran"

/-- An item of a health check. -/
structure HealthItem where
  name : String
  hasFixer : Bool
  deriving DecidableEq

/-- What an evaluation needs: the items are named by their place. -/
inductive HealthNeed
  | check (item : Nat)
  | fix (item : Nat)
  deriving DecidableEq

/-- Where an evaluation stands. -/
structure Evaluation where
  /-- Whether fixes are asked for. -/
  fix : Bool
  /-- The place of the first of the items that remain. -/
  place : Nat
  remaining : List HealthItem
  /-- The first item has failed its check and is to be fixed. -/
  fixing : Bool
  report : HealthReport
  deriving DecidableEq

namespace Evaluation

/-- An evaluation that begins. -/
def start (items : List HealthItem) (fix : Bool) : Evaluation := ⟨fix, 0, items, false, .empty⟩

/-- What is needed next; nothing when all items are done. -/
def need? (e : Evaluation) : Option HealthNeed :=
  match e.remaining with
  | [] => none
  | _ :: _ => some (if e.fixing then .fix e.place else .check e.place)

/-- The first item is done. -/
def next (e : Evaluation) (entry : Option HealthEntry) : Evaluation :=
  { e with
    place := e.place + 1
    remaining := e.remaining.tail
    fixing := false
    report := { e.report with fixes := e.report.fixes ++ entry.toList } }

/-- Takes the answer of the check of the first item. -/
def checked (e : Evaluation) (r : CheckResult) : Evaluation :=
  match e.remaining with
  | [] => e
  | item :: _ =>
    let status := HealthStatus.ofCheck r
    let e := { e with
      report := { e.report with checks := e.report.checks ++ [HealthEntry.ofCheck item.name r] } }
    if item.hasFixer then
      if status = .failed ∧ e.fix then { e with fixing := true }
      else e.next (HealthEntry.unfixed? item.name e.fix status)
    else e.next none

/-- Takes the answer of the fix of the first item. -/
def fixed (e : Evaluation) (r : FixResult) : Evaluation :=
  match e.remaining with
  | [] => e
  | item :: _ => e.next (some (.ofFix item.name r))

end Evaluation

end Conductor
