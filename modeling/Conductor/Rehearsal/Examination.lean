import Conductor.Health.Checkup
import Conductor.Health.Directory
import Conductor.Health.Fixer
/-!
# Rehearsal — examinations

Checks and fixes by script, and the checkup that they make. A scripted step may
cancel the run in which it happens, give the answer it was told, or never give
one; a stock step works on the files. Every scripted step is entered in a diary.
-/

namespace Conductor

namespace Rehearsal

/-- What scripted steps work on. -/
structure Bench where
  files : FileTree
  /-- The run is canceled. -/
  canceled : Bool
  /-- What has been called, in order. -/
  diary : List String

namespace Bench

/-- Enters a call in the diary. -/
def note (b : Bench) (call : String) : Bench := { b with diary := b.diary ++ [call] }

/-- Cancels the run if the step does so. -/
def cancelIf (b : Bench) (cancels : Bool) : Bench := { b with canceled := b.canceled || cancels }

end Bench

/-- A check by script, or the stock check of a directory. -/
inductive ScriptedCheck
  | told (cancels hangs : Bool) (result : CheckResult)
  | directory (path : String)

/-- A fix by script, named in the diary by its label, or the stock fix of a directory. -/
inductive ScriptedFix
  | told (label : String) (cancels hangs : Bool) (result : FixResult)
  | directory (path : String)

/-- An item of a health check by script. -/
structure ScriptedItem where
  name : String
  check : ScriptedCheck
  fix : Option (Fixer ScriptedFix)

/-- The item as an evaluation sees it. -/
def ScriptedItem.item (i : ScriptedItem) : HealthItem := ⟨i.name, i.fix.isSome⟩

/-- Does the check of an item. -/
def ScriptedCheck.run (c : ScriptedCheck) (b : Bench) : Option CheckResult × Bench :=
  match c with
  | .told cancels hangs r => (if hangs then none else some r, b.cancelIf cancels)
  | .directory path => (some (Health.checkDirectory b.files path), b)

/-- Enters a step of a fix in the diary. -/
def ScriptedFix.call (f : ScriptedFix) (b : Bench) : Bench :=
  match f with
  | .told label _ _ _ => b.note ("fix " ++ label)
  | .directory _ => b

/-- Does a step of a fix. -/
def ScriptedFix.run (f : ScriptedFix) (b : Bench) : Option FixResult × Bench :=
  match f with
  | .told _ cancels hangs r => (if hangs then none else some r, b.cancelIf cancels)
  | .directory path =>
    let (r, files) := Health.makeDirectory b.files path
    (some r, { b with files })

/-- What an evaluation asks of scripted items, by item. -/
inductive Task
  | check (name : String) (check : ScriptedCheck)
  | fix (fixer : Fixer ScriptedFix)

/-- The task that a need is. -/
def taskOf? (items : List ScriptedItem) : HealthNeed → Option Task
  | .check i => items[i]?.map fun item => .check item.name item.check
  | .fix i => (items[i]?.bind ScriptedItem.fix).map .fix

/-- A task is called, which does nothing yet. A fixer made of others calls them
only when it is done. -/
def Task.call (t : Task) (b : Bench) : Bench :=
  match t with
  | .check name _ => b.note ("check " ++ name)
  | .fix (.step f) => f.call b
  | .fix _ => b

/-- A task is done: the action that answers for it, if it comes to an end. -/
def Task.run (t : Task) (b : Bench) : Option Checkup.Action × Bench :=
  match t with
  | .check _ c =>
    let (r, b) := c.run b
    (r.map .checked, b)
  | .fix (.step f) =>
    let (r, b) := f.run b
    (r.map .fixed, b)
  | .fix f =>
    let (r, b) := f.run (fun step b => step.run (step.call b)) b
    (r.map .fixed, b)

/-- A task is called and done. The cancellation is looked at when the task has
been called, and while it is waited for. Nothing when it does not come to an end. -/
def Task.perform (t : Task) (b : Bench) : Option Checkup.Action × Bench :=
  let b := t.call b
  if b.canceled then (some .abandon, b)
  else
    match t.run b with
    | (some a, b) => (some a, b)
    | (none, b) => (if b.canceled then some .abandon else none, b)

/-- An examination: the checkup, what its steps work on, and the result for the
caller, once there is one. -/
structure Examination where
  checkup : Checkup
  bench : Bench
  result : Option HealthResult

/-- Takes an action, and keeps the result if there is one. -/
def Examination.act (x : Examination) (a : Checkup.Action) : Examination × List Checkup.Reply :=
  match x.checkup.act a with
  | none => (x, [])
  | some (c, replies) =>
    let result := replies.findSome? fun
      | .answer _ r => some r
      | .need _ => none
    ({ x with checkup := c, result := x.result.or result }, replies)

/-- Goes on until the caller has its result or waits for a task that does not
come to an end. -/
def Examination.run (items : List ScriptedItem) : (fuel : Nat) → Examination → Examination
  | 0, x => x
  | fuel + 1, x =>
    match x.act .invoke with
    | (x, [.need n]) =>
      match taskOf? items n with
      | none => x
      | some task =>
        match task.perform x.bench with
        | (some a, bench) => Examination.run items fuel ({ x with bench }.act a).1
        | (none, bench) => { x with bench }
    | (x, _) => x

/-- A caller asks for the checkup, and it goes on as far as it can. -/
def examine (items : List ScriptedItem) (fix : Bool) (c : Checkup) (b : Bench) : Examination :=
  let x := (({ checkup := c, bench := b, result := none : Examination }.act (.ask 0 fix)).1.act
    .turn).1
  x.run items (2 * items.length + 1)

end Rehearsal

end Conductor
