import Conductor.Engine.BuildStage
/-!
# Rehearsal — builders

Builders by script. What a builder does for one build is a `BuildScript`: it may
take its time, wait to be canceled, cancel the run, and end in any way. The stock
builder does the same for every build; the other one looks up what to do by the
first of the groups.
-/

namespace Conductor

namespace Rehearsal

/-- What is done for one build, in the order of the fields. -/
structure BuildScript where
  /-- The group under which the build is entered in the diary. -/
  label : Option String
  /-- The time that passes, in milliseconds. -/
  delay : Nat
  /-- A cancellation ends that time, and with it the build. -/
  heeds : Bool
  /-- The build then waits until it is canceled. -/
  waits : Bool
  /-- The build then cancels the run. -/
  cancelsRun : Bool
  ending : BuildEnd

/-- The number of digits of a fingerprint in the artifacts of the stock builder. -/
def shownDigits : Nat := 12

/-- The artifact of the stock builder. -/
def stockArtifact (input : BuildInput) : String :=
  "fake://" ++ input.plan ++ "/" ++ String.ofList (input.fingerprint.toList.take shownDigits)

/-- The stock builder: it passes the dependencies through, or always fails. -/
structure StockBuilder where
  failure : Option String
  delay : Nat

/-- What the stock builder does. -/
def StockBuilder.script (b : StockBuilder) (input : BuildInput) : BuildScript where
  label := none
  delay := b.delay
  heeds := true
  waits := false
  cancelsRun := false
  ending := .returned (match b.failure with
    | some message => .error (.failed [message])
    | none => .ok ⟨stockArtifact input, input.dependencies⟩)

/-- How a build for a group ends by script. -/
inductive GroupEnding
  | breaks (message : String)
  | cancels
  | fails (causes : Causes)
  /-- The artifact is the one given, or else named for the group. -/
  | builds (artifact : Option String)

/-- What is done for a group. -/
structure GroupScript where
  delay : Nat
  waits : Bool
  cancelsRun : Bool
  ending : GroupEnding

/-- Nothing but the artifact. -/
def GroupScript.plain : GroupScript := ⟨0, false, false, .builds none⟩

/-- A builder that looks up what to do by the first group of a build. -/
structure GroupBuilder where
  scripts : Table GroupScript

/-- What is done for a build. -/
def GroupBuilder.script (b : GroupBuilder) (input : BuildInput) : BuildScript :=
  let group := input.groupIds.headD ""
  let s := (b.scripts.get? group).getD .plain
  { label := some group
    delay := s.delay
    heeds := false
    waits := s.waits
    cancelsRun := s.cancelsRun
    ending := match s.ending with
      | .breaks message => .broke message
      | .cancels => .returned (.error .canceled)
      | .fails causes => .returned (.error (.failed causes))
      | .builds artifact =>
        .returned (.ok ⟨artifact.getD ("art:" ++ group), input.dependencies⟩) }

end Rehearsal

end Conductor
