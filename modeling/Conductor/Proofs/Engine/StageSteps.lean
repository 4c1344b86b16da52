import Conductor.Proofs.Engine.Account
import Conductor.Proofs.Engine.Cleanup
/-!
# Engine — the build stage among the steps

To the build stage of a call a step of the call is one of a few things
(`Call.StageStep`): the stage takes it, the stage stays as it is, or there is no stage
any more behind it. A step of a session, from the point of view of one call, is its
beginning, a step of its own, or nothing to it (`Session.Sees`); so what holds of a call
when it begins and is kept by its own steps holds of it whatever the other calls do.
-/

namespace Conductor

/-- The effect asks a builder, or tells of a build. -/
def Effect.concernsBuild : Effect → Bool
  | .build _ _ _ => true
  | .event (.buildStarted _ _ _) => true
  | .event (.buildFinished _ _) => true
  | .event (.buildCached _) => true
  | _ => false

/-- The unit of the build stage that an input is about. -/
def CallInput.unit? : CallInput → Option Nat
  | .finish unit _ => some unit
  | .join unit => some unit
  | _ => none

/-- The units that are planned for a request. -/
def Request.units (e : Engine) : Request → List BuildUnit
  | .orchestrate comp o =>
    match Call.beginRun e false comp o with
    | .ok (.building _ s) => s.units
    | _ => []
  | .build comp o =>
    match Call.beginBuild e false comp o with
    | .ok (.building _ s) => s.units
    | _ => []
  | .checkHealth _ _ => []

/-- The builds go on. -/
def CallPhase.isBuilding : CallPhase → Bool
  | .building _ _ => true
  | _ => false

/-- Two ledgers have the same builds, and count the same of them. -/
structure Ledger.SameBuilds (l l' : Ledger) : Prop where
  cache : l'.cache = l.cache
  started : l'.started = l.started
  executed : l'.metrics.buildsExecuted = l.metrics.buildsExecuted
  hits : l'.metrics.cacheHits = l.metrics.cacheHits

theorem Ledger.SameBuilds.refl (l : Ledger) : l.SameBuilds l := ⟨rfl, rfl, rfl, rfl⟩

namespace Call

variable {e : Engine} {l l' : Ledger} {c c' : Call} {j : CallInput} {fx more : List Effect}

/-- Nothing is said of builds. -/
def NoBuildSaid (fx : List Effect) : Prop := ∀ x ∈ fx, x.concernsBuild = false

/-- The call is not building: not any more, or it never was. -/
def BuildsOver (c : Call) : Prop := c.phase.isBuilding = false

/-- **What a step of a call is to its build stage.** -/
inductive StageStep (l : Ledger) (c : Call) : CallInput → Ledger → Call → List Effect → Prop
  | proceed {o : Option RunOrder} {s s' : BuildStage} {l' : Ledger} {fx : List Effect} :
    c.phase = .building o s → s.proceed l = some (s', l', fx) →
      StageStep l c .proceed l' (c.enter (.building o s')) fx
  | finish {o : Option RunOrder} {s s' : BuildStage} {unit : Nat} {how : BuildEnd}
    {fx : List Effect} : c.phase = .building o s → s.finish unit how = some (s', fx) →
      StageStep l c (.finish unit how) l (c.enter (.building o s')) fx
  | join {o : Option RunOrder} {s s' : BuildStage} {unit : Nat} {l' : Ledger} :
    c.phase = .building o s → s.join l unit = some (s', l') →
      StageStep l c (.join unit) l' (c.enter (.building o s')) []
  /-- The stage, if there is one, stays as it is. -/
  | stays {j : CallInput} {c' : Call} {fx : List Effect} :
    j.unit? = none → c'.phase = c.phase → NoBuildSaid fx → StageStep l c j l c' fx
  /-- There is no stage any more. -/
  | passes {j : CallInput} {l' : Ledger} {c' : Call} {fx : List Effect} :
    j.unit? = none → (∀ o s, c.phase = .building o s → s.isOver = true) → c'.BuildsOver →
      l.SameBuilds l' → NoBuildSaid fx → StageStep l c j l' c' fx

/-! ## What is said of builds -/

theorem noBuildSaid_append : NoBuildSaid (fx ++ more) ↔ NoBuildSaid fx ∧ NoBuildSaid more :=
  List.forall_mem_append

theorem noBuildSaid_cons {x : Effect} :
    NoBuildSaid (x :: fx) ↔ x.concernsBuild = false ∧ NoBuildSaid fx :=
  List.forall_mem_cons

theorem noBuildSaid_nil : NoBuildSaid [] := by simp [NoBuildSaid]

/-- Where nothing is said of builds, no builder is asked. -/
theorem NoBuildSaid.noBuild (h : NoBuildSaid fx) : NoBuild fx := by
  intro x hx
  have := h x hx
  cases x with
  | build b i input => cases this
  | _ => rfl

/-- Lines shown and verdicts are not about builds. -/
theorem noBuildSaid_collectEffects {echo : Bool} {old new : Collector}
    {said : List Collector.Announcement} : NoBuildSaid (collectEffects echo old new said) := by
  refine noBuildSaid_append.2 ⟨?_, ?_⟩
  · split
    · intro x hx
      obtain ⟨y, -, rfl⟩ := List.mem_map.1 hx
      rfl
    · exact noBuildSaid_nil
  · intro x hx
    obtain ⟨y, -, rfl⟩ := List.mem_map.1 hx
    rfl

/-! ## Behind the builds -/

/-- The start of a run. -/
theorem over_startRun (p : RunProgress) :
    (c.startRun e p).1.BuildsOver ∧ NoBuildSaid (c.startRun e p).2 := by
  unfold startRun
  split
  · exact ⟨rfl, by simp [NoBuildSaid, abort, failureEvent, Effect.concernsBuild]⟩
  · split
    · exact ⟨rfl, by simp [NoBuildSaid, abort, failureEvent, Effect.concernsBuild]⟩
    · exact ⟨rfl, by simp [NoBuildSaid, Effect.concernsBuild]⟩

/-- The gate in front of a run. -/
theorem over_gate (o : RunOrder) (builds : List BuildResult) :
    (c.gate e o builds).1.BuildsOver ∧ NoBuildSaid (c.gate e o builds).2 := by
  unfold gate
  split
  · exact ⟨rfl, by simp [NoBuildSaid, Effect.concernsBuild]⟩
  · exact over_startRun _

/-- The end of the builds. -/
theorem over_concludeBuilds (o : Option RunOrder) (s : BuildStage) :
    (c.concludeBuilds e o s).1.BuildsOver ∧ NoBuildSaid (c.concludeBuilds e o s).2 := by
  unfold concludeBuilds
  split
  · exact ⟨rfl, by simp [NoBuildSaid, abort, failureEvent, Effect.concernsBuild]⟩
  · exact ⟨rfl, noBuildSaid_nil⟩
  · exact over_gate _ _
  · exact ⟨rfl, noBuildSaid_nil⟩

/-- The health of the runner. -/
theorem over_passGate (o : RunOrder) (builds : List BuildResult) (r : HealthResult) :
    (c.passGate e o builds r).1.BuildsOver ∧ NoBuildSaid (c.passGate e o builds r).2 := by
  unfold passGate
  cases r with
  | error error => exact ⟨rfl, by simp [NoBuildSaid, abort, failureEvent, Effect.concernsBuild]⟩
  | ok report =>
    dsimp only
    cases o.policy.rejection? report with
    | some reason =>
      exact ⟨rfl, by simp [NoBuildSaid, abort, failureEvent, Effect.concernsBuild]⟩
    | none =>
      obtain ⟨hover, hsaid⟩ := over_startRun (e := e) (c := c) ⟨o, builds, some report⟩
      exact ⟨hover, noBuildSaid_cons.2 ⟨rfl, hsaid⟩⟩

/-- The end of the runner. -/
theorem over_endRun (p : RunProgress) (r : Except RunError RunOutput) :
    (c.endRun p r).1.BuildsOver ∧ NoBuildSaid (c.endRun p r).2 := by
  unfold endRun
  split
  · exact ⟨rfl, noBuildSaid_nil⟩
  · exact ⟨rfl, noBuildSaid_nil⟩
  · exact ⟨rfl, by simp [NoBuildSaid, abort, failureEvent, Effect.concernsBuild]⟩

/-- The end of the output. -/
theorem over_concludeRun (p : RunProgress) :
    (c.concludeRun l p).2.1.BuildsOver ∧ NoBuildSaid (c.concludeRun l p).2.2 := by
  refine ⟨rfl, ?_⟩
  unfold concludeRun
  cases c.canceled <;> simp [NoBuildSaid, Effect.concernsBuild]

/-- In another phase there is no stage that could go on. -/
theorem isOver_of_phase {p : CallPhase} (hphase : c.phase = p) (hp : p.isBuilding = false) :
    ∀ o s, c.phase = .building o s → s.isOver = true := by
  intro o s h
  rw [hphase] at h
  subst h
  cases hp

/-- **Every step is one of these.** -/
theorem StageStep.of_step (h : c.step e l j = some (l', c', fx)) : StageStep l c j l' c' fx := by
  cases Step.of_step h with
  | cancel => exact .stays rfl rfl noBuildSaid_nil
  | collect => exact .stays rfl rfl noBuildSaid_collectEffects
  | hangUp => exact .stays rfl rfl noBuildSaid_nil
  | build hphase hs => exact .proceed hphase hs
  | finish hphase hs => exact .finish hphase hs
  | join hphase hs => exact .join hphase hs
  | @conclude o s hphase _ hover =>
    refine .passes rfl (fun o' s' h => ?_) (over_concludeBuilds o s).1 (.refl l)
      (over_concludeBuilds o s).2
    rw [hphase] at h
    cases h
    exact hover
  | report hphase =>
    exact .passes rfl (isOver_of_phase hphase rfl) (over_concludeRun _).1 ⟨rfl, rfl, rfl, rfl⟩
      (over_concludeRun (l := l) _).2
  | pass hphase =>
    exact .passes rfl (isOver_of_phase hphase rfl) (over_passGate ..).1 (.refl l)
      (over_passGate ..).2
  | healthy hphase =>
    exact .passes rfl (isOver_of_phase hphase rfl) rfl (.refl l)
      (by simp [NoBuildSaid, Effect.concernsBuild])
  | unhealthy hphase =>
    exact .passes rfl (isOver_of_phase hphase rfl) rfl (.refl l) noBuildSaid_nil
  | returned hphase =>
    exact .passes rfl (isOver_of_phase hphase rfl) (over_endRun ..).1 (.refl l)
      (over_endRun ..).2

/-- **A call begins** with the stage of what is planned for it, in which nothing has
happened, or there is nothing to be built. -/
theorem start_cases (e : Engine) (runId : String) (canceled : Bool) (r : Request) :
    (∃ o s, (start e runId canceled r).1.phase = .building o s ∧
        (start e runId canceled r).2 = [] ∧ s.units = r.units e ∧
        ∀ slot ∈ s.slots, slot.progress = .planned) ∨
      (start e runId canceled r).1.BuildsOver ∧ NoBuildSaid (start e runId canceled r).2 := by
  cases r with
  | orchestrate comp opts =>
    rcases beginRun_cases e canceled comp opts with ⟨order, s, v, b, hbegin, hplanned⟩ |
      ⟨error, hbegin, -⟩
    · obtain ⟨rfl, -, -, hnew, -⟩ := BuildStage.planned_cases hplanned
      refine .inl ⟨some order, s, ?_, ?_, ?_, hnew⟩
      · simp only [start, hbegin, opened]
      · simp only [start, hbegin]
      · simp only [Request.units, hbegin]
    · refine .inr ⟨?_, ?_⟩
      · simp only [start, hbegin, opened, BuildsOver, CallPhase.isBuilding]
      · simp [start, hbegin, NoBuildSaid, failureEvent, Effect.concernsBuild]
  | build comp opts =>
    cases hbegin : beginBuild e canceled comp opts with
    | ok phase =>
      obtain ⟨s, rfl, hplans, -, hnew, -⟩ := beginBuild_cases hbegin
      rw [Plans] at hplans
      refine .inl ⟨none, s, ?_, ?_, ?_, hnew⟩
      · simp only [start, hbegin, opened]
      · simp only [start, hbegin]
      · simp only [Request.units, hplans]
    | error error =>
      refine .inr ⟨?_, ?_⟩
      · simp only [start, hbegin, opened, BuildsOver, CallPhase.isBuilding]
      · simp [start, hbegin, NoBuildSaid]
  | checkHealth runner fix =>
    refine .inr ?_
    simp only [start, beginCheck]
    split
    · exact ⟨rfl, noBuildSaid_nil⟩
    · split
      · exact ⟨rfl, by simp [NoBuildSaid, Effect.concernsBuild]⟩
      · exact ⟨rfl, noBuildSaid_nil⟩

end Call

namespace Session

variable {e : Engine} {s t : Session} {i : Input} {is : List Input} {deeds more : List Deed}
  {k : Nat} {c c' : Call} {fx : List Effect}

/-- **What a step of a session is to one of its calls.** -/
inductive Sees (e : Engine) (s t : Session) (k : Nat) : Input → Call → List Effect → Prop
  | begins (runId : String) (canceled : Bool) (r : Request) : k = s.calls.length →
      t.ledger = s.ledger →
      Sees e s t k (.start runId canceled r) (Call.start e runId canceled r).1
        (Call.start e runId canceled r).2
  | own {c c' : Call} {j : CallInput} {fx : List Effect} : s.calls[k]? = some c →
      c.step e s.ledger j = some (t.ledger, c', fx) → Sees e s t k (.call k j) c' fx
  /-- A checkup tells the call the health of a runner. -/
  | told {c c' : Call} {runner : Selector} {a : Checkup.Action} {r : HealthResult}
    {fx : List Effect} : s.calls[k]? = some c →
      c.step e s.ledger (.examined r) = some (t.ledger, c', fx) →
      Sees e s t k (.checkup runner a) c' fx
  /-- A check or a fix is asked for on behalf of the call. -/
  | attended {c : Call} {runner runner' : Selector} {a : Checkup.Action} {n : HealthNeed} :
      s.calls[k]? = some c → Sees e s t k (.checkup runner a) c [.attend runner' n]
  | idle {i : Input} {c : Call} : s.calls[k]? = some c → (∀ j, i ≠ .call k j) →
      Sees e s t k i c []

/-- The step of a call, seen by it or another. -/
theorem sees_call {j : CallInput} {n : Nat} (h : s.stepCall e n j = some (t, more))
    (hc : t.calls[k]? = some c') : Sees e s t k (.call n j) c' (deedsOf k more) := by
  obtain ⟨c, l', c₁, fx, hc₀, hstep, rfl, rfl, hcalls, -⟩ := stepCall_cases h
  rw [hcalls] at hc
  by_cases hk : n = k
  · subst hk
    rw [List.getElem?_set_self (List.getElem?_eq_some_iff.1 hc₀).1, Option.some.injEq] at hc
    subst hc
    rw [deedsOf_own]
    exact .own hc₀ hstep
  · rw [List.getElem?_set_ne hk] at hc
    rw [deedsOf_other hk]
    exact .idle hc fun j heq => by cases heq; exact hk rfl

/-- **Every step is one of these.** -/
theorem Sees.of_step (h : s.step e i = some (t, more)) (hc : t.calls[k]? = some c') :
    Sees e s t k i c' (deedsOf k more) := by
  have hmove := (Move.of_step h).1
  cases i with
  | call n j => exact sees_call h hc
  | start runId canceled r =>
    cases hmove with
    | steps hi => cases hi
    | attends hi => cases hi
    | rests hi => cases hi
    | begins _ _ _ hledger hcalls =>
      rw [hcalls] at hc
      rcases Nat.lt_trichotomy k s.calls.length with hlt | rfl | hgt
      · rw [List.getElem?_append_left hlt] at hc
        rw [deedsOf_other (Nat.ne_of_gt hlt)]
        exact .idle hc nofun
      · rw [List.getElem?_concat_length, Option.some.injEq] at hc
        rw [deedsOf_own]
        exact hc ▸ .begins runId canceled r rfl hledger
      · rw [List.getElem?_eq_none (by simpa using Nat.succ_le_of_lt hgt)] at hc
        cases hc
  | checkup runner a =>
    cases hmove with
    | @steps _ _ n j l' c₀ c₁ fx _ hc₀ hstep hi hledger hcalls =>
      obtain ⟨r, rfl⟩ := hi.resolve_left nofun
      subst hledger
      rw [hcalls] at hc
      by_cases hk : n = k
      · subst hk
        rw [List.getElem?_set_self (List.getElem?_eq_some_iff.1 hc₀).1, Option.some.injEq] at hc
        subst hc
        rw [deedsOf_own]
        exact .told hc₀ hstep
      · rw [List.getElem?_set_ne hk] at hc
        rw [deedsOf_other hk]
        exact .idle hc nofun
    | @attends _ _ n runner' need _ _ _ hcalls =>
      rw [hcalls] at hc
      by_cases hk : n = k
      · subst hk
        exact deedsOf_own (k := n) [.attend runner' need] ▸ .attended hc
      · exact deedsOf_other hk [.attend runner' need] ▸ .idle hc nofun
    | rests _ _ hcalls =>
      rw [hcalls] at hc
      exact .idle hc nofun

end Session

end Conductor
