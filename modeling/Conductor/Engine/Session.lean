import Conductor.Engine.Call
/-!
# Engine — sessions

A session is an engine at work: its ledger, the checkups of its runners, and the
calls made so far, which may be under way side by side. `Session.step` is one
step of it. The calls share the ledger, and they share the checkups: a call that
wants the health of a runner asks for its checkup and goes on when that answers.

Every effect of a step is that of a call; `Deed` says of which one.
-/

namespace Conductor

/-- An effect, and the number of the call that has it. -/
structure Deed where
  call : Nat
  effect : Effect

/-- An engine at work. -/
structure Session where
  ledger : Ledger
  /-- The checkups of the runners that can be examined. -/
  checkups : List (Selector × Checkup)
  /-- The calls in the order in which they began. -/
  calls : List Call

namespace Session

/-- Something that happens in a session. -/
inductive Input
  /-- A call begins; its number is that of the calls before it. -/
  | start (runId : String) (canceled : Bool) (request : Request)
  /-- Something happens to a call. -/
  | call (number : Nat) (input : CallInput)
  /-- A caller has its turn, or the checkup of a runner goes on. -/
  | checkup (runner : Selector) (action : Checkup.Action)

/-- The session of an engine that has done nothing. -/
def ofEngine (e : Engine) : Session where
  ledger := .empty
  checkups := e.registry.runners.filterMap fun r => r.health.map fun items => (r.id, .ofItems items)
  calls := []

/-- The checkup of a runner. -/
def checkup? (s : Session) (runner : Selector) : Option Checkup :=
  (s.checkups.find? fun x => x.1 = runner).map Prod.snd

/-- Puts a checkup in the place of the one of the same runner. -/
def putCheckup (s : Session) (runner : Selector) (c : Checkup) : Session :=
  { s with checkups := s.checkups.map fun x => if x.1 = runner then (runner, c) else x }

/-- Asks for the checkup of a runner on behalf of a call. -/
def ask (s : Session) (call : Nat) (runner : Selector) (fix : Bool) : Session :=
  match (s.checkup? runner).bind (·.act (.ask call fix)) with
  | some (c, _) => s.putCheckup runner c
  | none => s

/-- What an effect of a call means for the rest of the session. -/
def heed (call : Nat) (s : Session) : Effect → Session
  | .examine runner fix => s.ask call runner fix
  | _ => s

/-- Takes over a call that has taken a step. -/
def accept (s : Session) (number : Nat) (c : Call) (effects : List Effect) : Session × List Deed :=
  (effects.foldl (heed number) { s with calls := s.calls.set number c },
    effects.map (⟨number, ·⟩))

/-- A call begins. -/
def start (e : Engine) (s : Session) (runId : String) (canceled : Bool) (r : Request) :
    Session × List Deed :=
  let number := s.calls.length
  let (c, effects) := Call.start e runId canceled r
  { s with calls := s.calls ++ [c] }.accept number c effects

/-- Something happens to a call. -/
def stepCall (e : Engine) (s : Session) (number : Nat) (i : CallInput) :
    Option (Session × List Deed) := do
  let c ← s.calls[number]?
  let (ledger, c, effects) ← c.step e s.ledger i
  return { s with ledger }.accept number c effects

/-- The caller on whose behalf a checkup is under way. -/
def callerOf (c : Checkup) : Option Nat :=
  match c.progress with
  | .underway caller _ _ => some caller
  | _ => none

/-- A checkup is given up only when its caller is canceled, and only calls ask for it. -/
def mayAct (s : Session) (c : Checkup) : Checkup.Action → Bool
  | .ask _ _ => false
  | .abandon => ((callerOf c).bind (s.calls[·]?)).any Call.canceled
  | _ => true

/-- Hands on what comes of an action of a checkup. -/
def handOn (e : Engine) (runner : Selector) (caller : Option Nat) (r : Session × List Deed) :
    Checkup.Reply → Session × List Deed
  | .need n => (r.1, r.2 ++ (caller.map fun k => ⟨k, .attend runner n⟩).toList)
  | .answer k result =>
    match stepCall e r.1 k (.examined result) with
    | some (s, deeds) => (s, r.2 ++ deeds)
    | none => r

/-- A caller has its turn, or the checkup of a runner goes on. -/
def stepCheckup (e : Engine) (s : Session) (runner : Selector) (a : Checkup.Action) :
    Option (Session × List Deed) := do
  let c ← s.checkup? runner
  if s.mayAct c a then
    let (c, replies) ← c.act a
    return replies.foldl (handOn e runner (callerOf c)) (s.putCheckup runner c, [])
  else none

/-- One step of a session. -/
def step (e : Engine) (s : Session) : Input → Option (Session × List Deed)
  | .start runId canceled r => some (s.start e runId canceled r)
  | .call number i => s.stepCall e number i
  | .checkup runner a => s.stepCheckup e runner a

/-- The session after some steps, each of which is possible, with all that was done. -/
inductive Reaches (e : Engine) : Session → List Deed → Prop
  | initial : Reaches e (ofEngine e) []
  | next {s t : Session} {deeds more : List Deed} {i : Input} :
    Reaches e s deeds → s.step e i = some (t, more) → Reaches e t (deeds ++ more)

end Session

end Conductor
