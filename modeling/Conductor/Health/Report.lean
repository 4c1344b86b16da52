import Conductor.Json.Decode
/-!
# Health — reports

A health check has named items. A report lists the status of every check in
the order of the items, and behind them the status of the fixes of those items
that have one to speak of. A policy decides whether a report stops a run.
-/

namespace Conductor

/-- The status of a check or a fix. -/
inductive HealthStatus
  /-- The check passed, or the fix was applied. -/
  | ok
  /-- The check found a problem, or the fix did not work. -/
  | failed
  /-- The check could not be completed. -/
  | aborted
  /-- The fix was skipped. -/
  | omitted
  /-- The check passed, so that nothing was to be fixed. -/
  | unnecessary
  deriving DecidableEq

namespace HealthStatus

/-- The names of the statuses. -/
def names : List (String × HealthStatus) :=
  [("ok", .ok), ("failed", .failed), ("aborted", .aborted), ("omitted", .omitted),
   ("unnecessary", .unnecessary)]

/-- The name of a status. -/
def name : HealthStatus → String
  | .ok => "ok"
  | .failed => "failed"
  | .aborted => "aborted"
  | .omitted => "omitted"
  | .unnecessary => "unnecessary"

/-- A status from JSON. -/
def decode : Json.Decoder HealthStatus := Json.Decode.variant names

end HealthStatus

/-- The status of one item. -/
structure HealthEntry where
  name : String
  status : HealthStatus
  message : String
  deriving DecidableEq

/-- The results of a health check. -/
structure HealthReport where
  checks : List HealthEntry
  fixes : List HealthEntry
  deriving DecidableEq

/-- One entry of a printed report. -/
def HealthEntry.text (e : HealthEntry) : String :=
  "  " ++ e.name ++ ": " ++ e.status.name ++ " (" ++ e.message ++ ")"

/-- An entry as JSON. -/
def HealthEntry.toJson (e : HealthEntry) : Json :=
  .object [("message", .string e.message), ("name", .string e.name),
    ("status", .string e.status.name)]

namespace HealthReport

/-- A report without entries. -/
def empty : HealthReport := ⟨[], []⟩

/-- Every check passed. -/
def checksSucceeded (r : HealthReport) : Bool := r.checks.all (·.status = .ok)

/-- No fix failed. -/
def fixesSucceeded (r : HealthReport) : Bool := r.fixes.all (·.status ≠ .failed)

/-- Some check could not be completed. -/
def hasAborted (r : HealthReport) : Bool := r.checks.any (·.status = .aborted)

/-- The printed report. -/
def text (r : HealthReport) : String :=
  "checks:\n" ++ String.join (r.checks.map fun e => e.text ++ "\n") ++
    (if r.fixes.isEmpty then "no fixes"
     else "fixes:" ++ String.join (r.fixes.map fun e => "\n" ++ e.text))

/-- A report as JSON. -/
def toJson (r : HealthReport) : Json :=
  .object [("checks", .array (r.checks.map HealthEntry.toJson)),
    ("fixes", .array (r.fixes.map HealthEntry.toJson))]

open Json.Decode

/-- The shape of an entry. -/
def entryShape : Shape HealthEntry where
  title := "struct HealthcheckItem"
  fields :=
    [field "name" .required Json.Decode.text fun x e => { e with name := x },
     field "status" .required HealthStatus.decode fun x e => { e with status := x },
     field "message" .required Json.Decode.text fun x e => { e with message := x }]
  empty := ⟨"", .ok, ""⟩
  exact := false

/-- The shape of a report. -/
def shape : Shape HealthReport where
  title := "struct HealthcheckReport"
  fields :=
    [field "checks" .defaulted (list (record entryShape)) fun x r => { r with checks := x },
     field "fixes" .defaulted (list (record entryShape)) fun x r => { r with fixes := x }]
  empty := empty
  exact := false

/-- A report from JSON. -/
def decode : Json.Decoder HealthReport := record shape

end HealthReport

/-- A request for a health check: the runner's name, and whether to fix what can be fixed. -/
structure HealthRequest where
  runner : String
  fix : Bool
  deriving DecidableEq

namespace HealthRequest

open Json.Decode

/-- A request as JSON. -/
def toJson (r : HealthRequest) : Json :=
  .object [("fix", .bool r.fix), ("runner", .string r.runner)]

/-- The shape of a request. -/
def shape : Shape HealthRequest where
  title := "struct HealthcheckRequest"
  fields :=
    [field "runner" .required text fun x r => { r with runner := x },
     field "fix" .defaulted flag fun x r => { r with fix := x }]
  empty := ⟨"", false⟩
  exact := false

/-- A request from JSON. -/
def decode : Json.Decoder HealthRequest := record shape

end HealthRequest

/-! ## Policies -/

/-- When a health check is run before a run, and what in its report stops the run. -/
structure HealthPolicy where
  enabled : Bool
  fix : Bool
  abortOnFailedChecks : Bool
  abortOnFailedFixes : Bool
  abortOnAbortedChecks : Bool
  deriving DecidableEq

namespace HealthPolicy

/-- Checks are run and fixed; only a fix that failed stops the run. -/
def standard : HealthPolicy := ⟨true, true, false, true, false⟩

/-- Nothing is checked. -/
def disabled : HealthPolicy := { standard with enabled := false }

/-- Why a report stops a run. -/
inductive Rejection
  | failedFixes
  | abortedChecks
  | failedChecks
  deriving DecidableEq

/-- The words for a rejection. -/
def Rejection.text : Rejection → String
  | .failedFixes => "healthcheck fixes failed; aborting"
  | .abortedChecks => "healthcheck checks aborted; aborting"
  | .failedChecks => "healthcheck checks failed; aborting"

/-- The first reason in a report to stop the run. -/
def rejection? (p : HealthPolicy) (r : HealthReport) : Option Rejection :=
  if p.abortOnFailedFixes ∧ ¬ r.fixesSucceeded then some .failedFixes
  else if p.abortOnAbortedChecks ∧ r.hasAborted then some .abortedChecks
  else if p.abortOnFailedChecks ∧ ¬ r.checksSucceeded then some .failedChecks
  else none

/-- A policy as JSON. -/
def toJson (p : HealthPolicy) : Json :=
  .object [("abort_on_aborted_checks", .bool p.abortOnAbortedChecks),
    ("abort_on_failed_checks", .bool p.abortOnFailedChecks),
    ("abort_on_failed_fixes", .bool p.abortOnFailedFixes),
    ("enabled", .bool p.enabled), ("fix", .bool p.fix)]

open Json.Decode

/-- The shape of a policy. -/
def shape : Shape HealthPolicy where
  title := "struct HealthcheckPolicy"
  fields :=
    [field "enabled" .required flag fun x p => { p with enabled := x },
     field "fix" .required flag fun x p => { p with fix := x },
     field "abort_on_failed_checks" .required flag fun x p => { p with abortOnFailedChecks := x },
     field "abort_on_failed_fixes" .required flag fun x p => { p with abortOnFailedFixes := x },
     field "abort_on_aborted_checks" .required flag fun x p => { p with abortOnAbortedChecks := x }]
  empty := standard
  exact := false

/-- A policy from JSON. -/
def decode : Json.Decoder HealthPolicy := record shape

end HealthPolicy

end Conductor
