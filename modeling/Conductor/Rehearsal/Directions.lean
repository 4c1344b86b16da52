import Conductor.Rehearsal.Notation
import Conductor.Rehearsal.Troupe
/-!
# Rehearsal — stage directions

Scripts are written as JSON documents. A member that is missing says that
nothing of the kind happens. The paths of stock checks and fixes are relative to
a directory.
-/

namespace Conductor

namespace Rehearsal

/-! ## Checks and fixes -/

/-- Causes; a failure without any is told so. -/
def causesOf (j : Json) : Causes :=
  match j.asStrings with
  | [] => ["unspecified"]
  | causes => causes

/-- An error of a check or a fix. -/
def checkErrorOf (j : Json) : CheckError := ⟨j.textAt "err", causesOf (j.member "cause")⟩

/-- A check by script. -/
def ScriptedCheck.ofJson (directory : String) (j : Json) : ScriptedCheck :=
  match j.textAt? "dir" with
  | some path => .directory (Path.join directory path)
  | none =>
    .told (j.flagAt "cancel") (j.flagAt "hang")
      (match j.textAt? "ok", j.textAt? "failed" with
      | some message, _ => .ok ⟨true, message⟩
      | none, some message => .ok ⟨false, message⟩
      | none, none => .error (checkErrorOf j))

/-- A single step of a fix by script. -/
def ScriptedFix.ofJson (directory : String) (j : Json) : ScriptedFix :=
  match j.textAt? "mkdir" with
  | some path => .directory (Path.join directory path)
  | none =>
    let told (label : String) (result : FixResult) : ScriptedFix :=
      .told label (j.flagAt "cancel") (j.flagAt "hang") result
    if j.has "err" then told (j.textAt "err") (.error (checkErrorOf j))
    else told (j.textAt "ok") (.ok (j.textAt "ok"))

mutual

/-- A fix by script. -/
def fixerOf (directory : String) : Json → Fixer ScriptedFix
  | .object ms =>
    match combinationOf directory ms with
    | some f => f
    | none => .step (.ofJson directory (.object ms))
  | j => .step (.ofJson directory j)

/-- A fix made of others, if the members describe one. -/
def combinationOf (directory : String) : List (String × Json) → Option (Fixer ScriptedFix)
  | [] => none
  | (name, .array xs) :: rest =>
    if name = "all" then some (.all (fixersOf directory xs))
    else if name = "any" then some (.any (fixersOf directory xs))
    else combinationOf directory rest
  | _ :: rest => combinationOf directory rest

/-- Fixes by script. -/
def fixersOf (directory : String) : List Json → List (Fixer ScriptedFix)
  | [] => []
  | x :: xs => fixerOf directory x :: fixersOf directory xs

end

/-- An item of a health check by script. -/
def ScriptedItem.ofJson (directory : String) (j : Json) : ScriptedItem where
  name := j.textAt "name"
  check := .ofJson directory (j.member "check")
  fix := if j.has "fix" then some (fixerOf directory (j.member "fix")) else none

/-! ## Builders -/

/-- What is done for a group. -/
def GroupScript.ofJson (j : Json) : GroupScript where
  delay := j.natAt "delay_ms"
  waits := j.flagAt "wait"
  cancelsRun := j.flagAt "cancel_run"
  ending :=
    match j.textAt? "panic" with
    | some message => .breaks message
    | none =>
      if j.flagAt "canceled" then .cancels
      else if j.has "fail" then .fails (causesOf (j.member "fail"))
      else .builds (j.textAt? "artifact")

/-- How a builder builds. -/
def BuilderPart.ofJson (j : Json) : BuilderPart :=
  if j.has "script" then
    .byGroup ⟨(j.member "script").asTable.map fun e => (e.1, .ofJson e.2)⟩
  else .stock ⟨j.textAt? "fail", j.natAt "delay_ms"⟩

/-- A builder by script. One that goes by group knows no selectors, and refuses nothing. -/
def BuilderRole.ofJson (j : Json) : Except SelectorError BuilderRole := do
  let id ← Selector.parse (j.textAt "id")
  match BuilderPart.ofJson j with
  | .byGroup b => return ⟨id, [], none, .byGroup b⟩
  | .stock b => return ⟨id, j.stringsAt "selectors", j.textAt? "reject_key", .stock b⟩

/-! ## Runners -/

/-- What an instance writes: the name of a script, or what happens in it. -/
def InstanceScript.ofJson (j : Json) : InstanceScript :=
  if j.asString = "silent" then .silent
  else if j.asString = "hanging" then .hanging
  else
    let script : InstanceScript :=
      match j.textAt? "failed", j.textAt? "crashed", j.textAt? "fail_start" with
      | some error, _, _ => .fails error
      | none, some error, _ => .crashes error
      | none, none, some reason => .absent reason
      | none, none, none =>
        if j.asString = "ok" then .succeeds
        else ⟨j.textAt "stdout", "", none, j.flagAt "hang"⟩
    { script with errors := j.textAt "stderr" }

/-- The error that a runner returns, if it does. -/
def runErrorOf? (j : Json) : Option RunError :=
  match j with
  | .string _ => some .canceled
  | .object _ => some (.invalidInput (j.textAt "invalid"))
  | _ => none

/-- What a runner does. -/
def StockRunner.ofJson (j : Json) : StockRunner where
  scripts := (j.listAt "scripts").map .ofJson
  standard := if j.has "default_script" then .ofJson (j.member "default_script") else .succeeds
  ending :=
    match j.textAt? "fail" with
    | some message => .fails message
    | none => .returns (j.flagAt "cancel_run") (runErrorOf? (j.member "result"))

/-- A runner by script. -/
def RunnerRole.ofJson (directory : String) (j : Json) : Except SelectorError RunnerRole := do
  let id ← Selector.parse (j.textAt "id")
  return {
    id
    compatible := j.stringsAt "compatible"
    refuses := j.textAt? "reject_key"
    part := .ofJson j
    health :=
      if j.has "healthcheck" then some ((j.listAt "healthcheck").map (.ofJson directory))
      else none }

/-! ## Performances -/

/-- Components by script. -/
def Troupe.ofJson (directory : String) (j : Json) : Except SelectorError Troupe := do
  let builders ← (j.listAt "builders").mapM BuilderRole.ofJson
  let runners ← (j.listAt "runners").mapM (RunnerRole.ofJson directory)
  return ⟨builders, runners⟩

/-- When the run of a call is canceled: before it, once nothing else can happen,
or after a time. -/
def Interruption.ofJson (j : Json) : Interruption :=
  if j.has "cancel" then
    match j.member "cancel" with
    | .string "before" => .before
    | .string _ => .after 1
    | delay => .after delay.asNat
  else .never

end Rehearsal

end Conductor
