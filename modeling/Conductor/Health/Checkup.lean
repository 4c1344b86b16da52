import Conductor.Health.Check
/-!
# Health — checkups

A runner is examined once. Callers ask for its checkup, each with a context and
a wish to fix of its own; the first whose turn comes has the items evaluated,
and all that come later receive what the first one got, be it a report or the
error that the evaluation was canceled. `Checkup.act` is one step of this, so
that a history of a checkup is a list of actions in any order.
-/

namespace Conductor

/-- What a checkup gives. -/
abbrev HealthResult := Except HealthError HealthReport

/-- How far the one evaluation is. -/
inductive CheckupProgress
  | unbegun
  /-- It is done on behalf of a caller; `asked` when its need has been handed out. -/
  | underway (caller : Nat) (evaluation : Evaluation) (asked : Bool)
  | settled (result : HealthResult)

/-- A checkup: its items, how far it is, and who waits for it, the longest waiting first. -/
structure Checkup where
  items : List HealthItem
  progress : CheckupProgress
  waiting : List (Nat × Bool)

namespace Checkup

/-- A checkup for which nobody has asked. -/
def ofItems (items : List HealthItem) : Checkup := ⟨items, .unbegun, []⟩

/-- What can happen to a checkup. -/
inductive Action
  /-- A caller asks, with or without a wish to fix. -/
  | ask (caller : Nat) (fix : Bool)
  /-- The caller that has waited longest has its turn. -/
  | turn
  /-- What the evaluation needs is handed out. -/
  | invoke
  /-- A check has answered. -/
  | checked (result : CheckResult)
  /-- A fix has answered. -/
  | fixed (result : FixResult)
  /-- The evaluation, waiting for an answer, notices that its caller is canceled. -/
  | abandon

/-- What comes of an action. -/
inductive Reply
  /-- A check or a fix is to be done. -/
  | need (need : HealthNeed)
  /-- A caller has its result. -/
  | answer (caller : Nat) (result : HealthResult)

/-- The evaluation goes on, or its caller has the result. -/
def proceed (c : Checkup) (caller : Nat) (e : Evaluation) : Checkup × List Reply :=
  match e.need? with
  | some _ => ({ c with progress := .underway caller e false }, [])
  | none => ({ c with progress := .settled (.ok e.report) }, [.answer caller (.ok e.report)])

/-- One step. Nothing is handed out to, and nobody has a turn beside, an
evaluation that waits for an answer. -/
def act (c : Checkup) : Action → Option (Checkup × List Reply)
  | .ask caller fix => some ({ c with waiting := c.waiting ++ [(caller, fix)] }, [])
  | .turn =>
    match c.waiting, c.progress with
    | (caller, fix) :: rest, .unbegun =>
      some (proceed { c with waiting := rest } caller (.start c.items fix))
    | (caller, _) :: rest, .settled r => some ({ c with waiting := rest }, [.answer caller r])
    | _, _ => none
  | .invoke =>
    match c.progress with
    | .underway caller e false =>
      e.need?.map fun n => ({ c with progress := .underway caller e true }, [.need n])
    | _ => none
  | .checked r =>
    match c.progress with
    | .underway caller e true => if e.fixing then none else some (proceed c caller (e.checked r))
    | _ => none
  | .fixed r =>
    match c.progress with
    | .underway caller e true => if e.fixing then some (proceed c caller (e.fixed r)) else none
    | _ => none
  | .abandon =>
    match c.progress with
    | .underway caller _ true =>
      some ({ c with progress := .settled (.error .canceled) }, [.answer caller (.error .canceled)])
    | _ => none

end Checkup

end Conductor
