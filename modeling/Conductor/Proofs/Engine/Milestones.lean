import Conductor.Proofs.Engine.StageSteps
import Mathlib.Algebra.Ring.Nat
/-!
# Engine — the milestones of a call

Of all that a call reports, the start of its run, the end of its run and the failure of a
stage are its milestones. Which of them a step reports goes with the phase that the step
leads to (`Call.Marks`), verdicts come with the output of instances only, and the runs are
counted where their end is reported and nowhere else. So an orchestration that has its
result has told its caller and its listeners the same (`Call.Marked`).
-/

namespace Conductor

/-- What is reported by an effect. -/
def Effect.event? : Effect → Option LifecycleEvent
  | .event x => some x
  | _ => none

/-- The event is the start or the end of a run, or the failure of a stage. -/
def LifecycleEvent.isMilestone : LifecycleEvent → Bool
  | .runStarted _ _ _ _ _ => true
  | .runFinished _ _ _ => true
  | .stageFailed _ _ => true
  | _ => false

/-- The verdict of an instance that is reported. -/
def LifecycleEvent.verdict? : LifecycleEvent → Option Collector.Announcement
  | .instanceVerdict id v => some (id, v)
  | _ => none

/-- The event is about the run: a milestone, or a verdict. -/
def LifecycleEvent.isNews (x : LifecycleEvent) : Bool := x.isMilestone || x.verdict?.isSome

/-- The number of failed instances, where the event is the end of a run. -/
def LifecycleEvent.failures? : LifecycleEvent → Option Nat
  | .runFinished _ _ failed => some failed
  | _ => none

/-- Two ledgers count the same runs. -/
structure Ledger.SameRuns (l l' : Ledger) : Prop where
  completed : l'.metrics.runsCompleted = l.metrics.runsCompleted
  failed : l'.metrics.instancesFailed = l.metrics.instancesFailed

theorem Ledger.SameRuns.refl (l : Ledger) : l.SameRuns l := ⟨rfl, rfl⟩

namespace Call

/-- All that is reported. -/
def events (fx : List Effect) : List LifecycleEvent := fx.filterMap Effect.event?

/-- The milestones among what is reported. -/
def milestones (fx : List Effect) : List LifecycleEvent :=
  (events fx).filter LifecycleEvent.isMilestone

/-- What is reported of the run. -/
def news (fx : List Effect) : List LifecycleEvent := (events fx).filter LifecycleEvent.isNews

/-- The verdicts that are reported. -/
def verdicts (fx : List Effect) : List Collector.Announcement :=
  (events fx).filterMap LifecycleEvent.verdict?

/-- The failed instances of each run whose end is reported. -/
def endedRuns (fx : List Effect) : List Nat := (events fx).filterMap LifecycleEvent.failures?

/-- Where the way to a run leads: to the failure of a stage, to the health of the runner,
or to the start. -/
inductive Departure (runId : String) : CallPhase → List LifecycleEvent → Prop
  | fails (x : OrchestrationError) :
    Departure runId (.finished (.error x)) [.stageFailed x.stage x.message]
  | waits (o : RunOrder) (builds : List BuildResult) : Departure runId (.gated o builds) []
  | runs (p : RunProgress) (plan case : String) (runner : Selector) (total : Nat) :
    Departure runId (.running p) [.runStarted runId plan case runner total]

/-- **What a step reports of the run**, with the phases between which it stands. -/
inductive Marks (l : Ledger) (c : Call) : Ledger → CallPhase → List LifecycleEvent → Prop
  | stays {l' : Ledger} : l.SameRuns l' → Marks l c l' c.phase []
  /-- A line is read, and with it an instance may have its verdict. -/
  | settles (said : List Collector.Announcement) :
    Marks l c l c.phase (said.map fun a => .instanceVerdict a.1 a.2)
  | builds {l' : Ledger} {o : Option RunOrder} {s s' : BuildStage} : c.phase = .building o s →
    l.SameRuns l' → Marks l c l' (.building o s') []
  /-- The builds of an orchestration are over, or the health of its runner is known. -/
  | departs {p : CallPhase} {ms : List LifecycleEvent} :
    ((∃ o s, c.phase = .building (some o) s) ∨ ∃ o builds, c.phase = .gated o builds) →
      Departure c.runId p ms → Marks l c l p ms
  /-- A call that is no orchestration has its result. -/
  | answers {r : Except OrchestrationError Answer} :
    ((∃ s, c.phase = .building none s) ∨ ∃ runner, c.phase = .examining runner) →
      Marks l c l (.finished r) []
  | collects {p : RunProgress} : c.phase = .running p → Marks l c l (.collecting p) []
  | aborts {p : RunProgress} {x : OrchestrationError} : c.phase = .running p →
    Marks l c l (.finished (.error x)) [.stageFailed x.stage x.message]
  | reports {p : RunProgress} {r : RunReport} : c.phase = .collecting p →
    c.collector.isDone = true → r.runId = c.runId → r.instances = c.collector.verdicts →
      Marks l c (l.countRun (failedOf r.outcome)) (.finished (.ok (.report r)))
        [.runFinished r.runId r.outcome (failedOf r.outcome)]

/-- The call has started its run, and told so. -/
def Started (runId : String) (ms : List LifecycleEvent) : Prop :=
  ∃ plan case runner total, ms = [.runStarted runId plan case runner total]

/-- **The milestones of an orchestration**, by its phase. -/
def Marked (runId : String) (phase : CallPhase) (ms : List LifecycleEvent) : Prop :=
  match phase with
  | .building o _ => o.isSome = true ∧ ms = []
  | .gated _ _ => ms = []
  | .examining _ => False
  | .running _ => Started runId ms
  | .collecting _ => Started runId ms
  | .finished (.ok (.report r)) => r.runId = runId ∧ ∃ before, Started runId before ∧
      ms = before ++ [.runFinished r.runId r.outcome (failedOf r.outcome)]
  -- an orchestration has no other answer
  | .finished (.ok _) => False
  | .finished (.error x) => ∃ before, (before = [] ∨ Started runId before) ∧
      ms = before ++ [.stageFailed x.stage x.message]

variable {e : Engine} {l l' : Ledger} {c c' : Call} {j : CallInput} {fx more : List Effect}
  {p : CallPhase} {ms : List LifecycleEvent} {runId : String}

/-! ## What is reported -/

@[simp] theorem events_append : events (fx ++ more) = events fx ++ events more :=
  List.filterMap_append

@[simp] theorem events_map (told : List LifecycleEvent) : events (told.map .event) = told := by
  simp [events, List.filterMap_map, Function.comp_def, Effect.event?]

@[simp] theorem milestones_append : milestones (fx ++ more) = milestones fx ++ milestones more := by
  simp [milestones]

@[simp] theorem verdicts_append : verdicts (fx ++ more) = verdicts fx ++ verdicts more := by
  simp [verdicts]

/-- Milestones are news. -/
theorem milestones_eq (fx : List Effect) :
    milestones fx = (news fx).filter LifecycleEvent.isMilestone := by
  rw [milestones, news, List.filter_filter]
  refine List.filter_congr fun x _ => ?_
  cases x <;> rfl

/-- So are verdicts. -/
theorem verdicts_eq : verdicts fx = (news fx).filterMap LifecycleEvent.verdict? := by
  rw [verdicts, news, List.filterMap_filter]
  refine List.filterMap_congr fun x _ => ?_
  cases x <;> rfl

/-- So is the end of a run. -/
theorem endedRuns_eq : endedRuns fx = (news fx).filterMap LifecycleEvent.failures? := by
  rw [endedRuns, news, List.filterMap_filter]
  refine List.filterMap_congr fun x _ => ?_
  cases x <;> rfl

/-- The end of a build is not. -/
theorem news_reports {how : BuildEnd} {n : Nat} : news ((how.reports n).map .event) = [] := by
  cases how <;> rfl

/-- What comes of the output of instances is its verdicts. -/
theorem news_collectEffects {echo : Bool} {old new : Collector}
    {said : List Collector.Announcement} :
    news (collectEffects echo old new said) = said.map fun a => .instanceVerdict a.1 a.2 := by
  have hlines : events ((if echo then (new.log.toList.drop old.log.size).map Effect.echo else [])) =
      [] := by
    split
    · refine List.filterMap_eq_nil_iff.2 fun x hx => ?_
      obtain ⟨y, -, rfl⟩ := List.mem_map.1 hx
      rfl
    · rfl
  have hsaid : said.map (fun a => Effect.event (.instanceVerdict a.1 a.2)) =
      (said.map fun a => LifecycleEvent.instanceVerdict a.1 a.2).map .event := by
    simp
  rw [news, collectEffects, events_append, hlines, List.nil_append, hsaid, events_map,
    List.filter_eq_self]
  intro x hx
  obtain ⟨a, -, rfl⟩ := List.mem_map.1 hx
  rfl

/-! ## From phase to phase -/

/-- The start of a run. -/
theorem departure_startRun (p : RunProgress) :
    Departure c.runId (c.startRun e p).1.phase (news (c.startRun e p).2) := by
  unfold startRun
  split
  · exact .fails _
  · split
    · exact .fails _
    · exact .runs p _ _ _ _

/-- The gate in front of a run. -/
theorem departure_gate (o : RunOrder) (builds : List BuildResult) :
    Departure c.runId (c.gate e o builds).1.phase (news (c.gate e o builds).2) := by
  unfold gate
  split
  · exact .waits o builds
  · exact departure_startRun _

/-- The end of the builds. -/
theorem departure_concludeBuilds (o : RunOrder) (s : BuildStage) :
    Departure c.runId (c.concludeBuilds e (some o) s).1.phase
      (news (c.concludeBuilds e (some o) s).2) := by
  unfold concludeBuilds
  cases s.outcome c.canceled with
  | error x => exact .fails x
  | ok builds => exact departure_gate o builds

/-- The health of the runner, which is no news of the run. -/
theorem departure_passGate (o : RunOrder) (builds : List BuildResult) (r : HealthResult) :
    Departure c.runId (c.passGate e o builds r).1.phase (news (c.passGate e o builds r).2) := by
  unfold passGate
  cases r with
  | error error => exact .fails _
  | ok report =>
    dsimp only
    cases o.policy.rejection? report with
    | some reason => exact .fails _
    | none => exact departure_startRun _

/-- The end of the builds where no run is wanted, which is no report. -/
theorem concludeBuilds_none (s : BuildStage) :
    ∃ r, c.concludeBuilds e none s = (c.enter (.finished r), []) ∧
      ∀ report, r ≠ .ok (.report report) := by
  unfold concludeBuilds
  cases s.outcome c.canceled with
  | error x => exact ⟨.error x, rfl, by simp⟩
  | ok builds => exact ⟨.ok (.builds builds), rfl, by simp⟩

/-- The end of the output. -/
theorem news_concludeRun (p : RunProgress) : news (c.concludeRun l p).2.2 =
    [.runFinished c.runId (c.collector.outcome c.canceled)
      (failedOf (c.collector.outcome c.canceled))] := by
  unfold concludeRun
  cases c.canceled <;> rfl

/-- The way to a run is that of one run. -/
theorem Onward.runId_eq {o : RunOrder} (h : Onward e c o c' fx) : c'.runId = c.runId := by
  cases h <;> rfl

/-- **Every step is one of these.** -/
theorem Marks.of_step (h : Step e l c j l' c' fx) :
    Marks l c l' c'.phase (news fx) ∧ c'.runId = c.runId := by
  cases h with
  | cancel => exact ⟨.stays (.refl l), rfl⟩
  | hangUp => exact ⟨.stays (.refl l), rfl⟩
  | collect =>
    rw [news_collectEffects]
    exact ⟨.settles _, rfl⟩
  | build hphase hs =>
    rcases BuildStage.proceed_cases hs with ⟨_, _, _, _, _, _, rfl, rfl⟩ |
      ⟨_, _, _, _, _, rfl, rfl⟩ | ⟨_, _, _, _, rfl, rfl⟩
    all_goals exact ⟨.builds hphase ⟨rfl, rfl⟩, rfl⟩
  | finish hphase hs =>
    obtain ⟨u, n, -, -, rfl⟩ := BuildStage.finish_reports hs
    refine ⟨?_, rfl⟩
    rw [news_reports]
    exact .builds hphase (.refl l)
  | join hphase hs =>
    obtain ⟨-, u, n, how, -, ⟨out, -, -, rfl⟩ | ⟨failure, -, rfl, -⟩⟩ := BuildStage.join_cases hs
    · exact ⟨.builds hphase ⟨rfl, rfl⟩, rfl⟩
    · exact ⟨.builds hphase (.refl _), rfl⟩
  | @conclude o s hphase =>
    cases o with
    | some o =>
      exact ⟨.departs (.inl ⟨o, s, hphase⟩) (departure_concludeBuilds o s),
        (onward_concludeBuilds o s).runId_eq⟩
    | none =>
      obtain ⟨r, hr, -⟩ := concludeBuilds_none (e := e) (c := c) s
      rw [hr]
      exact ⟨.answers (.inl ⟨s, hphase⟩), rfl⟩
  | @pass o builds r hphase =>
    exact ⟨.departs (.inr ⟨o, builds, hphase⟩) (departure_passGate o builds r),
      (onward_passGate o builds r).runId_eq⟩
  | healthy hphase => exact ⟨.answers (.inr ⟨_, hphase⟩), rfl⟩
  | unhealthy hphase => exact ⟨.answers (.inr ⟨_, hphase⟩), rfl⟩
  | @returned p r hphase =>
    match r with
    | .ok out => exact ⟨.collects hphase, rfl⟩
    | .error .canceled => exact ⟨.collects hphase, rfl⟩
    | .error (.failed causes) => exact ⟨.aborts hphase, rfl⟩
    | .error (.invalidInput reason) => exact ⟨.aborts hphase, rfl⟩
  | @report p hphase hdone =>
    refine ⟨?_, rfl⟩
    rw [news_concludeRun]
    exact .reports (r := ⟨c.runId, c.collector.outcome c.canceled, c.collector.verdicts,
      c.collector.log, p.builds, p.health⟩) hphase hdone rfl rfl
/-! ## What follows of them -/

/-- No run ends on the way to one. -/
theorem Departure.endedRuns_eq_nil (h : Departure runId p ms) :
    ms.filterMap LifecycleEvent.failures? = [] := by
  cases h <;> rfl

/-- **The runs are counted** where their end is reported. -/
theorem Marks.counts (h : Marks l c l' p ms) :
    l'.metrics.runsCompleted =
        l.metrics.runsCompleted + (ms.filterMap LifecycleEvent.failures?).length ∧
      l'.metrics.instancesFailed =
        l.metrics.instancesFailed + (ms.filterMap LifecycleEvent.failures?).sum := by
  cases h with
  | stays hsame => exact ⟨hsame.completed, hsame.failed⟩
  | settles said =>
    have hnone : (said.map fun a => LifecycleEvent.instanceVerdict a.1 a.2).filterMap
        LifecycleEvent.failures? = [] := by
      simp [List.filterMap_map, Function.comp_def, LifecycleEvent.failures?]
    rw [hnone]
    exact ⟨rfl, rfl⟩
  | builds _ hsame => exact ⟨hsame.completed, hsame.failed⟩
  | departs _ hdeparts =>
    rw [hdeparts.endedRuns_eq_nil]
    exact ⟨rfl, rfl⟩
  | answers => exact ⟨rfl, rfl⟩
  | collects => exact ⟨rfl, rfl⟩
  | aborts => exact ⟨rfl, rfl⟩
  | reports => exact ⟨rfl, by simp [Ledger.countRun, LifecycleEvent.failures?]⟩

/-- **The step lemma** for the milestones of an orchestration. -/
theorem Marked.step {before : List LifecycleEvent} (h : Marked c.runId c.phase before)
    (hmarks : Marks l c l' p ms) :
    Marked c.runId p (before ++ ms.filter LifecycleEvent.isMilestone) := by
  cases hmarks with
  | stays => rwa [List.filter_nil, List.append_nil]
  | settles said =>
    have hnone : (said.map fun a => LifecycleEvent.instanceVerdict a.1 a.2).filter
        LifecycleEvent.isMilestone = [] := by
      refine List.filter_eq_nil_iff.2 fun x hx => ?_
      obtain ⟨a, -, rfl⟩ := List.mem_map.1 hx
      exact Bool.false_ne_true
    rwa [hnone, List.append_nil]
  | builds hphase =>
    rw [hphase] at h
    rwa [List.filter_nil, List.append_nil]
  | departs hphase hdeparts =>
    have hnone : before = [] := by
      rcases hphase with ⟨o, s, hphase⟩ | ⟨o, builds, hphase⟩
      · rw [hphase] at h
        exact h.2
      · rw [hphase] at h
        exact h
    subst hnone
    cases hdeparts with
    | fails x => exact ⟨[], .inl rfl, rfl⟩
    | waits o builds => exact rfl
    | runs p plan case runner total => exact ⟨plan, case, runner, total, rfl⟩
  | answers hphase =>
    rcases hphase with ⟨s, hphase⟩ | ⟨runner, hphase⟩
    · rw [hphase] at h
      cases h.1
    · rw [hphase] at h
      exact h.elim
  | collects hphase =>
    rw [hphase] at h
    rwa [List.filter_nil, List.append_nil]
  | aborts hphase =>
    rw [hphase] at h
    exact ⟨before, .inr h, rfl⟩
  | reports hphase _ hrun =>
    rw [hphase] at h
    exact ⟨hrun, before, h, rfl⟩

/-- An orchestration begins with its builds, or with the failure of a stage. -/
theorem marked_start (e : Engine) (runId : String) (canceled : Bool) (comp : Composition)
    (o : CallOptions) :
    Marked runId (start e runId canceled (.orchestrate comp o)).1.phase
      (milestones (start e runId canceled (.orchestrate comp o)).2) := by
  rcases beginRun_cases e canceled comp o with ⟨order, s, -, -, hbegin, -⟩ | ⟨x, hbegin, -⟩
  · simp only [start, hbegin, opened]
    exact ⟨rfl, rfl⟩
  · simp only [start, hbegin, opened]
    exact ⟨[], .inl rfl, rfl⟩

end Call

end Conductor
