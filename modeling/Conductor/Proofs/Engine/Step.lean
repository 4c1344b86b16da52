import Conductor.Engine.Call
/-!
# Engine — the steps of a call

`Call.Step` says once what a step of a call can be, one constructor for each
way, and `Step.of_step` that there is no other. What follows the builds, up to
the start of the run, is one of three things, whatever way leads there: the call
ends with an error, the health of the runner is asked for, or the runner is asked
to start (`Call.Onward`). A call that waits for the health of a runner, or has
its result, does nothing itself (`Step.at_rest`).

`Call.Follows` is a call on its way. Other calls of the engine may change the
ledger between any two of its steps, so the ledger of each step is any.
-/

namespace Conductor

/-- A call in this phase has nothing to do itself: it waits for the health of a runner, or has
its result. -/
def CallPhase.IsAtRest : CallPhase → Prop
  | .gated _ _ => True
  | .examining _ => True
  | .finished _ => True
  | _ => False

namespace Call

variable {e : Engine} {l l' : Ledger} {c c' c₀ : Call} {i : CallInput}
  {is : List CallInput} {fx fx' : List Effect}

/-! ## From the builds to the run -/

/-- What can come of a call whose builds are there: a run `o` is wanted, and the
instances and the cancellation are as before. -/
inductive Onward (e : Engine) (c : Call) (o : RunOrder) : Call → List Effect → Prop
  /-- The call ends with an error. -/
  | fails (error : OrchestrationError) (told : List LifecycleEvent) :
    Onward e c o (c.fail error) (told.map .event)
  /-- The health of the runner is asked for. -/
  | waits (builds : List BuildResult) (fix : Bool) :
    Onward e c o (c.enter (.gated o builds)) [.examine o.runner.id fix]
  /-- The runner is asked to start. -/
  | runs (p : RunProgress) (input : RunInput) (told : List LifecycleEvent) :
    p.order = o → o.input e c.runId p.builds = .ok input → c.canceled = false →
      Onward e c o (c.enter (.running p)) (told.map .event ++ [.run o.runner.id input])

/-- Starting the run fails, or asks the runner. -/
theorem onward_startRun (p : RunProgress) :
    Onward e c p.order (c.startRun e p).1 (c.startRun e p).2 := by
  unfold startRun
  split
  · exact .fails _ [_]
  · rename_i input hinput
    split
    · exact .fails _ [_]
    · rename_i hc
      exact .runs p input [_] rfl hinput (Bool.eq_false_iff.2 hc)

/-- Something reported in front changes nothing. -/
theorem Onward.tell {o : RunOrder} (h : Onward e c o c' fx) (told : LifecycleEvent)
    (asks : ∀ builds, c'.phase ≠ .gated o builds) : Onward e c o c' (.event told :: fx) := by
  cases h with
  | fails error tail => exact .fails error (told :: tail)
  | waits builds fix => exact absurd rfl (asks builds)
  | runs p input tail hp hinput hc => exact .runs p input (told :: tail) hp hinput hc

/-- The gate asks for the health, or lets the run start. -/
theorem onward_gate (o : RunOrder) (builds : List BuildResult) :
    Onward e c o (c.gate e o builds).1 (c.gate e o builds).2 := by
  unfold gate
  split
  · exact .waits builds _
  · exact onward_startRun ⟨o, builds, none⟩

/-- Starting the run does not ask for the health again. -/
theorem startRun_phase_ne (p : RunProgress) (o : RunOrder) (builds : List BuildResult) :
    (c.startRun e p).1.phase ≠ .gated o builds := by
  unfold startRun
  split
  · simp [abort, fail, enter]
  · split <;> simp [abort, fail, enter]

/-- When the health is known the run fails, or starts. -/
theorem onward_passGate (o : RunOrder) (builds : List BuildResult) (r : HealthResult) :
    Onward e c o (c.passGate e o builds r).1 (c.passGate e o builds r).2 := by
  unfold passGate
  cases r with
  | error error => exact .fails _ [_]
  | ok report =>
    -- the report is told in front of whatever comes of it
    dsimp only
    cases o.policy.rejection? report with
    | some reason => exact .fails _ [_, _]
    | none =>
      exact (onward_startRun ⟨o, builds, some report⟩).tell _
        fun builds => startRun_phase_ne _ o builds

/-- When the builds of an orchestration are over it fails, or goes on. -/
theorem onward_concludeBuilds (o : RunOrder) (s : BuildStage) :
    Onward e c o (c.concludeBuilds e (some o) s).1 (c.concludeBuilds e (some o) s).2 := by
  unfold concludeBuilds
  cases s.outcome c.canceled with
  | error error => exact .fails error [_]
  | ok builds => exact onward_gate o builds

/-! ## Steps -/

/-- What one step of a call can be. -/
inductive Step (e : Engine) (l : Ledger) (c : Call) :
    CallInput → Ledger → Call → List Effect → Prop
  | cancel : Step e l c .cancel l { c with canceled := true } []
  /-- The build stage takes a step of its own. -/
  | build {o : Option RunOrder} {s s' : BuildStage} {l' : Ledger} {fx : List Effect} :
    c.phase = .building o s → s.proceed l = some (s', l', fx) →
      Step e l c .proceed l' (c.enter (.building o s')) fx
  /-- The build stage is over. -/
  | conclude {o : Option RunOrder} {s : BuildStage} :
    c.phase = .building o s → s.proceed l = none → s.isOver = true →
      Step e l c .proceed l (c.concludeBuilds e o s).1 (c.concludeBuilds e o s).2
  /-- The run is over. -/
  | report {p : RunProgress} : c.phase = .collecting p → c.collector.isDone = true →
      Step e l c .proceed (c.concludeRun l p).1 (c.concludeRun l p).2.1 (c.concludeRun l p).2.2
  | finish {o : Option RunOrder} {s s' : BuildStage} {unit : Nat} {how : BuildEnd}
    {fx : List Effect} : c.phase = .building o s → s.finish unit how = some (s', fx) →
      Step e l c (.finish unit how) l (c.enter (.building o s')) fx
  | join {o : Option RunOrder} {s s' : BuildStage} {unit : Nat} {l' : Ledger} :
    c.phase = .building o s → s.join l unit = some (s', l') →
      Step e l c (.join unit) l' (c.enter (.building o s')) []
  /-- The health of the runner is known, before a run. -/
  | pass {o : RunOrder} {builds : List BuildResult} {r : HealthResult} :
    c.phase = .gated o builds →
      Step e l c (.examined r) l (c.passGate e o builds r).1 (c.passGate e o builds r).2
  /-- The health of the runner is known, and nothing more was asked. -/
  | healthy {runner : Selector} {report : HealthReport} : c.phase = .examining runner →
      Step e l c (.examined (.ok report)) l (c.succeed (.health (some report)))
        [.event (.healthcheckEvaluated runner report)]
  | unhealthy {runner : Selector} {error : HealthError} : c.phase = .examining runner →
      Step e l c (.examined (.error error)) l (c.fail (.healthcheck error)) []
  | collect {a : Collector.Action} {k : Collector} {said : List Collector.Announcement} :
    c.mayCollect a = true → c.collector.act c.canceled a = some (k, said) →
      Step e l c (.collect a) l { c with collector := k }
        (collectEffects c.echo c.collector k said)
  | hangUp : Step e l c .hangUp l { c with collector := c.collector.closeStreams } []
  | returned {p : RunProgress} {r : Except RunError RunOutput} : c.phase = .running p →
      Step e l c (.returned r) l (c.endRun p r).1 (c.endRun p r).2

/-- What a call takes as its own next step. -/
theorem Step.of_proceed (h : c.proceed e l = some (l', c', fx)) :
    Step e l c .proceed l' c' fx := by
  unfold proceed at h
  split at h
  · rename_i o s hphase
    split at h
    · rename_i s' l₁ fx₁ hs
      cases h
      exact .build hphase hs
    · rename_i hs
      split at h
      · rename_i hover
        cases h
        exact .conclude hphase hs hover
      · cases h
  · rename_i p hphase
    split at h
    · rename_i hdone
      cases h
      exact .report hphase hdone
    · cases h
  · cases h

/-- **Every step is one of these.** -/
theorem Step.of_step (h : c.step e l i = some (l', c', fx)) : Step e l c i l' c' fx := by
  cases i with
  | cancel =>
    cases h
    exact .cancel
  | proceed => exact .of_proceed h
  | finish unit how =>
    simp only [step] at h
    split at h
    · rename_i o s hphase
      obtain ⟨r, hr, heq⟩ := Option.map_eq_some_iff.1 h
      cases heq
      exact .finish hphase hr
    · cases h
  | join unit =>
    simp only [step] at h
    split at h
    · rename_i o s hphase
      obtain ⟨r, hr, heq⟩ := Option.map_eq_some_iff.1 h
      cases heq
      exact .join hphase hr
    · cases h
  | examined r =>
    simp only [step] at h
    split at h
    · rename_i o builds hphase
      cases h
      exact .pass hphase
    · rename_i runner hphase
      cases r with
      | ok report =>
        cases h
        exact .healthy hphase
      | error error =>
        cases h
        exact .unhealthy hphase
    · cases h
  | collect a =>
    obtain ⟨r, hr, heq⟩ := Option.map_eq_some_iff.1 h
    cases heq
    unfold Call.collect at hr
    split at hr
    · rename_i hmay
      obtain ⟨r', hr', heq'⟩ := Option.map_eq_some_iff.1 hr
      cases heq'
      exact .collect hmay hr'
    · cases hr
  | hangUp =>
    cases h
    exact .hangUp
  | returned r =>
    simp only [step] at h
    split at h
    · rename_i p hphase
      cases h
      exact .returned hphase
    · cases h

/-! ## Calls at rest -/

/-- What can happen to a call in any phase: it is canceled, or something comes of its instances.
The phase stays. -/
inductive Beside (c : Call) : CallInput → Call → List Effect → Prop
  | cancel : Beside c .cancel { c with canceled := true } []
  | collect {a : Collector.Action} {k : Collector} {said : List Collector.Announcement} :
    Beside c (.collect a) { c with collector := k } (collectEffects c.echo c.collector k said)
  | hangUp : Beside c .hangUp { c with collector := c.collector.closeStreams } []

theorem Beside.phase_eq (h : Beside c i c' fx) : c'.phase = c.phase := by
  cases h with
  | cancel => rfl
  | collect => rfl
  | hangUp => rfl

/-- **A call at rest** leaves the ledger alone, and all that can come is news of health. -/
theorem Step.at_rest (h : Step e l c i l' c' fx) (hrest : c.phase.IsAtRest) :
    l' = l ∧ (Beside c i c' fx ∨ ∃ r, i = .examined r) := by
  cases h with
  | cancel => exact ⟨rfl, .inl .cancel⟩
  | collect => exact ⟨rfl, .inl .collect⟩
  | hangUp => exact ⟨rfl, .inl .hangUp⟩
  | pass => exact ⟨rfl, .inr ⟨_, rfl⟩⟩
  | healthy => exact ⟨rfl, .inr ⟨_, rfl⟩⟩
  | unhealthy => exact ⟨rfl, .inr ⟨_, rfl⟩⟩
  | build h => rw [h] at hrest; cases hrest
  | conclude h => rw [h] at hrest; cases hrest
  | report h => rw [h] at hrest; cases hrest
  | finish h => rw [h] at hrest; cases hrest
  | join h => rw [h] at hrest; cases hrest
  | returned h => rw [h] at hrest; cases hrest

/-- For a call that has its result no news comes. -/
theorem Step.of_finished {r : Except OrchestrationError Answer} (h : Step e l c i l' c' fx)
    (hphase : c.phase = .finished r) : l' = l ∧ Beside c i c' fx := by
  obtain ⟨hl, hbeside | ⟨result, rfl⟩⟩ := h.at_rest (by rw [hphase]; trivial)
  · exact ⟨hl, hbeside⟩
  · cases h with
    | pass h => rw [hphase] at h; cases h
    | healthy h => rw [hphase] at h; cases h
    | unhealthy h => rw [hphase] at h; cases h

/-- **A result is final**: a call that has one keeps it, and leaves the ledger alone. -/
theorem Step.finished {r : Except OrchestrationError Answer} (h : Step e l c i l' c' fx)
    (hphase : c.phase = .finished r) : c'.phase = .finished r ∧ l' = l := by
  obtain ⟨hl, hbeside⟩ := h.of_finished hphase
  exact ⟨hbeside.phase_eq.trans hphase, hl⟩

/-! ## Calls on their way -/

/-- A call behind some inputs, with its effects. Each step finds the ledger as
the calls beside it have left it. -/
inductive Follows (e : Engine) (c₀ : Call) : List CallInput → Call → List Effect → Prop
  | start : Follows e c₀ [] c₀ []
  | next {is : List CallInput} {c c' : Call} {fx fx' : List Effect} {i : CallInput}
    {l l' : Ledger} : Follows e c₀ is c fx → c.step e l i = some (l', c', fx') →
      Follows e c₀ (is ++ [i]) c' (fx ++ fx')

/-- A call that begins with its result ends with it. -/
theorem Follows.finished {r : Except OrchestrationError Answer} (h : Follows e c₀ is c fx)
    (hphase : c₀.phase = .finished r) : c.phase = .finished r := by
  induction h with
  | start => exact hphase
  | next _ step ih => exact ((Step.of_step step).finished ih).1

end Call

end Conductor
