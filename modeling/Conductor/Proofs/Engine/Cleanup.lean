import Conductor.Proofs.Engine.Completeness
import Conductor.Proofs.Engine.Session
/-!
# Engine — what an orchestration leaves behind

The stages of an orchestration end at the first that fails, so the error that a call ends
with says what it cannot have done: asked a builder, checked the health of a runner, or
asked a runner to start or to stop (`Call.Leaves`). `Call.Tidy` is what holds of a call
on the way to such a result, phase by phase; its step lemmas are one for each function
that leads from phase to phase. In a session the checks made on behalf of a call count as
its own, and calls beside it do not matter (`Session.Follows.leaves`).
-/

namespace Conductor

namespace Effect

/-- A builder is asked for an artifact. -/
def isBuild : Effect → Bool
  | .build _ _ _ => true
  | _ => false

/-- The health of a runner is asked for, or one of its checks or fixes. -/
def isCheck : Effect → Bool
  | .examine _ _ => true
  | .attend _ _ => true
  | _ => false

/-- A runner is asked to start instances, or to stop them. -/
def isRun : Effect → Bool
  | .run _ _ => true
  | .terminate _ => true
  | _ => false

/-- Nobody is asked for anything. -/
def IsQuiet (x : Effect) : Prop := x.isBuild = false ∧ x.isCheck = false ∧ x.isRun = false

end Effect

/-- The error is that an orchestration cannot begin: nothing was asked of anyone. -/
def OrchestrationError.IsEarly : OrchestrationError → Prop
  | .validation _ => True
  | .unknownSelector _ => True
  | .incompatible _ => True
  | .unsupportedSelector _ _ => True
  | .config .build _ => True
  | .canceled .build => True
  | _ => False

namespace Call

/-- No builder is asked for anything. -/
def NoBuild (fx : List Effect) : Prop := ∀ x ∈ fx, x.isBuild = false

/-- No health of a runner is asked for. -/
def NoCheck (fx : List Effect) : Prop := ∀ x ∈ fx, x.isCheck = false

/-- What is asked of runners, in its order. -/
def runs (fx : List Effect) : List Effect := fx.filter Effect.isRun

/-- **What an orchestration leaves behind**, by its result. The run behind a report was
canceled or not when the last instance had finished, which `cut` tells. -/
def Leaves (cut : Bool → Prop) (r : Except OrchestrationError Answer) (fx : List Effect) : Prop :=
  match r with
  | .error (.validation _) => NoBuild fx ∧ NoCheck fx ∧ runs fx = []
  | .error (.unknownSelector _) => NoBuild fx ∧ NoCheck fx ∧ runs fx = []
  | .error (.incompatible _) => NoBuild fx ∧ NoCheck fx ∧ runs fx = []
  | .error (.unsupportedSelector _ _) => NoBuild fx ∧ NoCheck fx ∧ runs fx = []
  | .error (.config .build _) => NoBuild fx ∧ NoCheck fx ∧ runs fx = []
  | .error (.build _ _) => NoCheck fx ∧ runs fx = []
  | .error (.canceled .build) => NoCheck fx ∧ runs fx = []
  | .error (.healthcheck _) => runs fx = []
  | .error (.rejected _ _) => runs fx = []
  | .error (.config .run _) => runs fx = []
  | .error (.canceled .run) => runs fx = []
  | .error (.run error) =>
    error ≠ .canceled ∧ ∃ runner input, runs fx = [.run runner input, .terminate runner]
  | .ok (.report _) => ∃ canceled runner input, cut canceled ∧
      runs fx = .run runner input :: if canceled then [.terminate runner] else []
  -- an orchestration has no other result
  | _ => False

/-- What holds of an orchestration in a phase. -/
def Tidy (cut : Bool → Prop) (phase : CallPhase) (fx : List Effect) : Prop :=
  match phase with
  | .building o _ => o.isSome ∧ NoCheck fx ∧ runs fx = []
  | .gated _ _ => runs fx = []
  | .examining _ => False
  | .running p => ∃ input, runs fx = [.run p.order.runner.id input]
  | .collecting p => ∃ input, runs fx = [.run p.order.runner.id input]
  | .finished r => Leaves cut r fx

variable {e : Engine} {l l' : Ledger} {c c' : Call} {j : CallInput} {fx more : List Effect}
  {cut cut' : Bool → Prop} {r : Except OrchestrationError Answer} {phase : CallPhase}

/-! ## Effects -/

@[simp] theorem runs_append : runs (fx ++ more) = runs fx ++ runs more := List.filter_append ..

theorem runs_append_eq_nil (h : runs fx = []) (hmore : runs more = []) :
    runs (fx ++ more) = [] := by
  rw [runs_append, h, hmore, List.append_nil]

theorem noBuild_append : NoBuild (fx ++ more) ↔ NoBuild fx ∧ NoBuild more :=
  List.forall_mem_append

theorem noCheck_append : NoCheck (fx ++ more) ↔ NoCheck fx ∧ NoCheck more :=
  List.forall_mem_append

/-- Quiet effects ask nobody for anything. -/
theorem of_quiet (h : ∀ x ∈ fx, x.IsQuiet) : NoBuild fx ∧ NoCheck fx ∧ runs fx = [] :=
  ⟨fun x hx => (h x hx).1, fun x hx => (h x hx).2.1,
    List.filter_eq_nil_iff.2 fun x hx => by simp [(h x hx).2.2]⟩

/-- What is only reported is quiet. -/
theorem quiet_events (told : List LifecycleEvent) : ∀ x ∈ told.map Effect.event, x.IsQuiet := by
  intro x hx
  obtain ⟨y, -, rfl⟩ := List.mem_map.1 hx
  exact ⟨rfl, rfl, rfl⟩

/-- So is what comes of the output of instances. -/
theorem quiet_collectEffects {echo : Bool} {old new : Collector}
    {said : List Collector.Announcement} :
    ∀ x ∈ collectEffects echo old new said, x.IsQuiet := by
  intro x hx
  unfold collectEffects at hx
  rcases List.mem_append.1 hx with hx | hx
  · split at hx
    · obtain ⟨y, -, rfl⟩ := List.mem_map.1 hx
      exact ⟨rfl, rfl, rfl⟩
    · cases hx
  · obtain ⟨y, -, rfl⟩ := List.mem_map.1 hx
    exact ⟨rfl, rfl, rfl⟩

/-- So nobody is asked for anything beside the phase. -/
theorem Beside.quiet {c c' : Call} {i : CallInput} (h : Beside c i c' fx) :
    ∀ x ∈ fx, x.IsQuiet := by
  cases h with
  | cancel => simp
  | collect => exact quiet_collectEffects
  | hangUp => simp

/-- What is left behind does not change by effects that do not matter to it. -/
theorem Leaves.mono {fx' : List Effect} (h : Leaves cut r fx) (hcut : ∀ b, cut b → cut' b)
    (hbuild : NoBuild fx → NoBuild fx') (hcheck : NoCheck fx → NoCheck fx')
    (hruns : runs fx' = runs fx) : Leaves cut' r fx' := by
  unfold Leaves at h
  split at h
  case h_13 =>
    obtain ⟨canceled, runner, input, hc, h⟩ := h
    exact ⟨canceled, runner, input, hcut canceled hc, hruns.trans h⟩
  case h_12 =>
    obtain ⟨hne, runner, input, h⟩ := h
    exact ⟨hne, runner, input, hruns.trans h⟩
  -- with the other errors nothing, or little, was asked
  all_goals first
    | exact ⟨hbuild h.1, hcheck h.2.1, hruns.trans h.2.2⟩
    | exact ⟨hcheck h.1, hruns.trans h.2⟩
    | exact hruns.trans h
    | exact h.elim

/-- So it is with what holds in a phase. -/
theorem Tidy.mono {fx' : List Effect} (h : Tidy cut phase fx) (hcut : ∀ b, cut b → cut' b)
    (hbuild : NoBuild fx → NoBuild fx') (hcheck : NoCheck fx → NoCheck fx')
    (hruns : runs fx' = runs fx) : Tidy cut' phase fx' := by
  cases phase with
  | building o s => exact ⟨h.1, hcheck h.2.1, hruns.trans h.2.2⟩
  | gated o builds => exact hruns.trans h
  | examining runner => exact h
  | running p =>
    obtain ⟨input, h⟩ := h
    exact ⟨input, hruns.trans h⟩
  | collecting p =>
    obtain ⟨input, h⟩ := h
    exact ⟨input, hruns.trans h⟩
  | finished r => exact Leaves.mono h hcut hbuild hcheck hruns

/-- Effects that ask nobody for anything do not matter. -/
theorem Tidy.quiet (h : Tidy cut phase fx) (hmore : ∀ x ∈ more, x.IsQuiet) :
    Tidy cut phase (fx ++ more) := by
  obtain ⟨hbuild, hcheck, hruns⟩ := of_quiet hmore
  refine h.mono (fun _ => id) (fun hb => noBuild_append.2 ⟨hb, hbuild⟩)
    (fun hc => noCheck_append.2 ⟨hc, hcheck⟩) ?_
  rw [runs_append, hruns, List.append_nil]

/-- A check that is made for a call which has asked for it does not matter. -/
theorem Tidy.attend (h : Tidy cut phase fx) (asked : Session.Examines fx) (runner : Selector)
    (n : HealthNeed) : Tidy cut phase (fx ++ [.attend runner n]) := by
  refine h.mono (fun _ => id) (fun hb => noBuild_append.2 ⟨hb, by simp [NoBuild, Effect.isBuild]⟩)
    (fun hc => ?_) ?_
  · -- where the health was asked for, nothing is said of checks
    obtain ⟨runner, fix, hmem⟩ := asked
    cases hc _ hmem
  · rw [runs_append]
    exact List.append_nil _

/-! ## Errors -/

/-- A configuration error with which a call cannot begin leaves no builds behind. -/
theorem Leaves.noBuild {x : OrchestrationError} (h : Leaves cut (.error x) fx)
    (hx : x.isConfiguration = true) (hearly : x.IsEarly) : NoBuild fx := by
  cases x with
  | validation violations => exact h.1
  | unknownSelector error => exact h.1
  | incompatible error => exact h.1
  | unsupportedSelector groups error => exact h.1
  | config stage error =>
    cases stage with
    | build => exact h.1
    | _ => exact hearly.elim
  | _ => cases hx

/-- A configuration error leaves no run behind. -/
theorem Leaves.runs_eq_nil {x : OrchestrationError} (h : Leaves cut (.error x) fx)
    (hx : x.isConfiguration = true) : runs fx = [] := by
  cases x with
  | validation violations => exact h.2.2
  | unknownSelector error => exact h.2.2
  | incompatible error => exact h.2.2
  | unsupportedSelector groups error => exact h.2.2
  | config stage error =>
    cases stage with
    | build => exact h.2.2
    | run => exact h
    | _ => exact h.elim
  | _ => cases hx

/-- An error with which a call cannot begin leaves nothing behind. -/
theorem leaves_early {error : OrchestrationError} (h : error.IsEarly)
    (told : List LifecycleEvent) : Leaves cut (.error error) (told.map .event) := by
  obtain ⟨hbuild, hcheck, hruns⟩ := of_quiet (quiet_events told)
  unfold OrchestrationError.IsEarly at h
  split at h
  all_goals first
    | exact ⟨hbuild, hcheck, hruns⟩
    | exact ⟨hcheck, hruns⟩
    | exact h.elim

/-- A plan fails for a selector or a configuration. -/
theorem planBuilds_early {v : ValidComposition} {b : Builder} {error : OrchestrationError}
    (h : e.planBuilds v b = .error error) : error.IsEarly := by
  simp only [Engine.planBuilds] at h
  split at h
  · rename_i hsome
    cases h
    unfold BuildUnit.unsupported? at hsome
    split at hsome
    · cases hsome
    · cases hsome
      trivial
  · cases hadd : BuildUnit.addAll e v b [] (BuildUnit.groupsToBuild v) with
    | error x =>
      rw [hadd] at h
      cases h
      trivial
    | ok units =>
      rw [hadd] at h
      cases h

/-- Builds cannot begin for their plan, or because the run is canceled. -/
theorem planned_early {canceled : Bool} {v : ValidComposition} {b : Builder} {o : CallOptions}
    {error : OrchestrationError} (h : planned e canceled v b o = .error error) :
    error.IsEarly := by
  unfold planned at h
  cases hplan : e.planBuilds v b with
  | error x =>
    rw [hplan] at h
    cases h
    exact planBuilds_early hplan
  | ok units =>
    rw [hplan] at h
    cases canceled with
    | true =>
      cases h
      trivial
    | false => cases h

/-- Components are not found, or do not fit each other. -/
theorem components_early {v : ValidComposition} {error : OrchestrationError}
    (h : components e v = .error error) : error.IsEarly := by
  unfold components at h
  simp only [bind, Except.bind] at h
  cases hb : e.registry.builder v.builder with
  | error x => rw [hb] at h; cases h; trivial
  | ok b =>
    rw [hb] at h
    cases hr : v.runner with
    | none => simp only [hr] at h; cases h; trivial
    | some s =>
      simp only [hr, Except.mapError] at h
      cases hx : e.registry.runner s with
      | error x => rw [hx] at h; cases h; trivial
      | ok r =>
        rw [hx] at h
        cases hcompatible : r.checkCompatible v.builder with
        | error x => simp only [hcompatible] at h; cases h; trivial
        | ok _ => simp only [hcompatible] at h; cases h

/-- **An orchestration begins** with builds and the run that is wanted then, or not at all. -/
theorem beginRun_cases (e : Engine) (canceled : Bool) (comp : Composition) (o : CallOptions) :
    (∃ order s v b, beginRun e canceled comp o = .ok (.building (some order) s) ∧
        planned e canceled v b o = .ok s) ∨
      ∃ error, beginRun e canceled comp o = .error error ∧ error.IsEarly := by
  unfold beginRun
  cases comp.validate with
  | error x => exact .inr ⟨_, rfl, trivial⟩
  | ok v =>
    simp only [bind, Except.bind, Except.mapError]
    cases hcomponents : components e v with
    | error x => exact .inr ⟨_, rfl, components_early hcomponents⟩
    | ok pair =>
      dsimp only
      cases hplanned : planned e canceled v pair.1 o with
      | error x => exact .inr ⟨_, rfl, planned_early hplanned⟩
      | ok s => exact .inl ⟨_, s, _, _, rfl, hplanned⟩

/-- The input of a run fails for a configuration only. -/
theorem input_error {o : RunOrder} {runId : String} {builds : List BuildResult}
    {error : OrchestrationError} (h : o.input e runId builds = .error error) :
    ∃ x, error = .config .run x := by
  unfold RunOrder.input at h
  split at h
  · cases h
    exact ⟨_, rfl⟩
  · cases h

/-! ## From phase to phase -/

/-- The start of a run. -/
theorem tidy_startRun (p : RunProgress) (h : runs fx = []) :
    Tidy cut (c.startRun e p).1.phase (fx ++ (c.startRun e p).2) := by
  unfold startRun
  split
  · rename_i error herror
    obtain ⟨x, rfl⟩ := input_error herror
    exact runs_append_eq_nil h rfl
  · rename_i input hinput
    split
    · exact runs_append_eq_nil h rfl
    · exact ⟨input, by rw [runs_append, h]; rfl⟩

/-- The gate in front of a run. -/
theorem tidy_gate (o : RunOrder) (builds : List BuildResult) (h : runs fx = []) :
    Tidy cut (c.gate e o builds).1.phase (fx ++ (c.gate e o builds).2) := by
  unfold gate
  split
  · exact runs_append_eq_nil h rfl
  · exact tidy_startRun _ h

/-- The end of the builds. -/
theorem tidy_concludeBuilds (o : RunOrder) (s : BuildStage) (hcheck : NoCheck fx)
    (h : runs fx = []) :
    Tidy cut (c.concludeBuilds e (some o) s).1.phase (fx ++ (c.concludeBuilds e (some o) s).2) := by
  have hfail : ∀ x, NoCheck (fx ++ [failureEvent x]) ∧ runs (fx ++ [failureEvent x]) = [] :=
    fun x => ⟨noCheck_append.2 ⟨hcheck, (of_quiet (quiet_events [_])).2.1⟩,
      runs_append_eq_nil h rfl⟩
  unfold concludeBuilds BuildStage.outcome
  cases s.failure with
  | none => exact tidy_gate o _ h
  | some f =>
    cases hc : c.canceled with
    | true => exact hfail _
    | false => exact hfail _

/-- The health of the runner. -/
theorem tidy_passGate (o : RunOrder) (builds : List BuildResult) (result : HealthResult)
    (h : runs fx = []) :
    Tidy cut (c.passGate e o builds result).1.phase (fx ++ (c.passGate e o builds result).2) := by
  unfold passGate
  cases result with
  | error error =>
    exact runs_append_eq_nil h rfl
  | ok report =>
    dsimp only
    cases o.policy.rejection? report with
    | some reason =>
      exact runs_append_eq_nil h rfl
    | none =>
      rw [List.append_cons]
      exact tidy_startRun _ (runs_append_eq_nil h rfl)

/-- The end of the runner. -/
theorem tidy_endRun (p : RunProgress) (result : Except RunError RunOutput)
    (h : ∃ input, runs fx = [.run p.order.runner.id input]) :
    Tidy cut (c.endRun p result).1.phase (fx ++ (c.endRun p result).2) := by
  obtain ⟨input, h⟩ := h
  have hfail : ∀ x, runs (fx ++ [.terminate p.order.runner.id, failureEvent x]) =
      [.run p.order.runner.id input, .terminate p.order.runner.id] := by
    intro x
    rw [runs_append, h]
    rfl
  cases result with
  | ok out => exact ⟨input, by rw [runs_append, h]; rfl⟩
  | error x =>
    cases x with
    | canceled => exact ⟨input, by rw [runs_append, h]; rfl⟩
    | failed causes => exact ⟨by simp, _, input, hfail _⟩
    | invalidInput reason => exact ⟨by simp, _, input, hfail _⟩

/-- The end of the output. -/
theorem leaves_concludeRun (p : RunProgress)
    (h : ∃ input, runs fx = [.run p.order.runner.id input]) (hcut : cut c.canceled) :
    Tidy cut (c.concludeRun l p).2.1.phase (fx ++ (c.concludeRun l p).2.2) := by
  obtain ⟨input, h⟩ := h
  refine ⟨c.canceled, p.order.runner.id, input, hcut, ?_⟩
  rw [runs_append, h, concludeRun]
  cases c.canceled <;> rfl

/-- **The step lemma.** A call that reports ends with the cancellation as it is then. -/
theorem Step.tidy (h : Step e l c j l' c' more) (ht : Tidy cut c.phase fx)
    (ends : ∀ p, j = .proceed → c.phase = .collecting p → c.collector.isDone = true →
      cut c.canceled) :
    Tidy cut c'.phase (fx ++ more) := by
  cases h with
  | cancel => simpa using ht
  | hangUp => simpa using ht
  | @build o s s' l' fx' hphase hs =>
    rw [hphase] at ht
    obtain ⟨ho, hcheck, hruns⟩ := ht
    have hquiet : NoCheck more ∧ runs more = [] := by
      rcases BuildStage.proceed_cases hs with ⟨_, _, _, _, _, _, _, rfl⟩ |
        ⟨_, _, _, _, _, _, rfl⟩ | ⟨_, _, _, _, _, rfl⟩
      all_goals exact ⟨by simp [NoCheck, Effect.isCheck], rfl⟩
    exact ⟨ho, noCheck_append.2 ⟨hcheck, hquiet.1⟩, runs_append_eq_nil hruns hquiet.2⟩
  | @conclude o s hphase _ hover =>
    rw [hphase] at ht
    obtain ⟨ho, hcheck, hruns⟩ := ht
    obtain ⟨order, rfl⟩ := Option.isSome_iff_exists.1 ho
    exact tidy_concludeBuilds order s hcheck hruns
  | @report p hphase hdone =>
    rw [hphase] at ht
    exact leaves_concludeRun p ht (ends p rfl hphase hdone)
  | @finish o s s' unit how fx' hphase hs =>
    obtain ⟨u, n, told, -, -, rfl⟩ := BuildStage.finish_cases hs
    rw [hphase] at ht
    have later := ht.quiet (quiet_events told)
    exact later
  | join hphase hs =>
    rw [hphase] at ht
    rw [List.append_nil]
    exact ht
  | @pass o builds result hphase =>
    rw [hphase] at ht
    exact tidy_passGate o builds result ht
  | healthy hphase =>
    rw [hphase] at ht
    exact ht.elim
  | unhealthy hphase =>
    rw [hphase] at ht
    exact ht.elim
  | collect => exact ht.quiet quiet_collectEffects
  | @returned p result hphase =>
    rw [hphase] at ht
    exact tidy_endRun p result ht

/-- An orchestration begins tidy. -/
theorem tidy_start (runId : String) (canceled : Bool) (comp : Composition) (o : CallOptions) :
    Tidy cut (start e runId canceled (.orchestrate comp o)).1.phase
      (start e runId canceled (.orchestrate comp o)).2 := by
  rcases beginRun_cases e canceled comp o with ⟨order, s, -, -, hbegin, -⟩ | ⟨error, hbegin, hearly⟩
  · simp only [start, hbegin, opened]
    exact ⟨rfl, by simp [NoCheck], rfl⟩
  · simp only [start, hbegin, opened]
    exact leaves_early hearly [_]

end Call

namespace Session

variable {e : Engine} {s : Session} {is : List Input} {deeds : List Deed} {k : Nat} {c : Call}

/-- The output of a call ended, and its report was made, when the run was canceled or not. -/
def Collected (e : Engine) (is : List Input) (k : Nat) (canceled : Bool) : Prop :=
  ∃ before after s deeds c p, is = before ++ .call k .proceed :: after ∧
    Follows e before s deeds ∧ s.calls[k]? = some c ∧ c.phase = .collecting p ∧
      c.collector.isDone = true ∧ c.canceled = canceled

/-- What was collected stays so. -/
theorem Collected.append {canceled : Bool} (h : Collected e is k canceled) (i : Input) :
    Collected e (is ++ [i]) k canceled := by
  obtain ⟨before, after, s, deeds, c, p, rfl, h⟩ := h
  exact ⟨before, after ++ [i], s, deeds, c, p, by simp, h⟩

/-- It was collected before the last input, or is collected with it. -/
theorem Collected.of_append {canceled : Bool} {i : Input} (h : Collected e (is ++ [i]) k canceled)
    (follows : Follows e is s deeds) :
    Collected e is k canceled ∨ i = .call k .proceed ∧
      ∃ c p, s.calls[k]? = some c ∧ c.phase = .collecting p ∧ c.canceled = canceled := by
  obtain ⟨before, after, s', deeds', c, p, his, follows', hc, hphase, hdone, hcanceled⟩ := h
  rcases List.eq_nil_or_concat after with rfl | ⟨after, last, rfl⟩
  · obtain ⟨rfl, hi⟩ := List.append_inj' his rfl
    cases hi
    obtain ⟨rfl, -⟩ := follows.unique follows'
    exact .inr ⟨rfl, c, p, hc, hphase, hcanceled⟩
  · rw [List.concat_eq_append, ← List.cons_append, ← List.append_assoc] at his
    obtain ⟨rfl, -⟩ := List.append_inj' his rfl
    exact .inl ⟨before, after, s', deeds', c, p, rfl, follows', hc, hphase, hdone, hcanceled⟩

/-- A call whose output was collected has its result. -/
theorem Follows.finished_of_collected {canceled : Bool} (h : Follows e is s deeds)
    (hcollected : Collected e is k canceled) :
    ∃ c r, s.calls[k]? = some c ∧ c.phase = .finished r := by
  induction h with
  | start =>
    obtain ⟨before, after, -, -, -, -, hnil, -⟩ := hcollected
    simp at hnil
  | next follows step ih =>
    rcases hcollected.of_append follows with hbefore | ⟨rfl, c, p, hc, hphase, -⟩
    · obtain ⟨c, r, hc, hphase⟩ := ih hbefore
      obtain ⟨c', hc', hphase'⟩ := (Move.of_step step).1.finished hc hphase
      exact ⟨c', r, hc', hphase'⟩
    · -- the step that ends the collecting is the report
      obtain ⟨c₀, l', c', fx, hc₀, hstep, -, -, hcalls, -⟩ := stepCall_cases step
      rw [hc] at hc₀
      cases hc₀
      refine ⟨c', ?_⟩
      rw [hcalls, List.getElem?_set_self (List.getElem?_eq_some_iff.1 hc).1]
      cases Call.Step.of_step hstep with
      | build hbuilding => rw [hphase] at hbuilding; cases hbuilding
      | conclude hbuilding => rw [hphase] at hbuilding; cases hbuilding
      | report => exact ⟨_, rfl, rfl⟩

/-- So its output is not collected any more. -/
theorem Follows.not_collecting {canceled : Bool} {p : RunProgress} (h : Follows e is s deeds)
    (hcollected : Collected e is k canceled) (hc : s.calls[k]? = some c) :
    c.phase ≠ .collecting p := by
  intro hphase
  obtain ⟨c', r, hc', hphase'⟩ := h.finished_of_collected hcollected
  rw [hc] at hc'
  cases hc'
  rw [hphase] at hphase'
  cases hphase'

/-- **The output of a call is collected once.** -/
theorem Follows.collected_unique {canceled canceled' : Bool} (h : Follows e is s deeds)
    (hcollected : Collected e is k canceled) (hcollected' : Collected e is k canceled') :
    canceled = canceled' := by
  induction h with
  | start =>
    obtain ⟨before, after, -, -, -, -, hnil, -⟩ := hcollected
    simp at hnil
  | next follows _ ih =>
    rcases hcollected.of_append follows with hbefore | ⟨-, c, p, hc, hphase, rfl⟩
    · rcases hcollected'.of_append follows with hbefore' | ⟨-, c', p', hc', hphase', -⟩
      · exact ih hbefore hbefore'
      · exact absurd hphase' (follows.not_collecting hbefore hc')
    · rcases hcollected'.of_append follows with hbefore' | ⟨-, c', p', hc', hphase', rfl⟩
      · exact absurd hphase (follows.not_collecting hbefore' hc)
      · rw [hc] at hc'
        cases hc'
        rfl

/-- **An orchestration is tidy** at every point of its session. -/
theorem Follows.tidy {comp : Composition} {o : CallOptions} (h : Follows e is s deeds)
    (hr : (requests is)[k]? = some (.orchestrate comp o)) (hc : s.calls[k]? = some c) :
    Call.Tidy (Collected e is k) c.phase (deedsOf k deeds) := by
  refine h.along (Q := fun is c fx => Call.Tidy (Collected e is k) c.phase fx) hc hr
    (fun is runId canceled => Call.tidy_start runId canceled comp o) ?_
  intro is s deeds i c c' fx follows hc ih hturn
  have later : Call.Tidy (Collected e (is ++ [i]) k) c.phase (deedsOf k deeds) :=
    ih.mono (fun b hb => hb.append i) id id rfl
  cases hturn with
  | own hstep hi =>
    refine (Call.Step.of_step hstep).tidy later fun p hj hphase hdone => ?_
    subst hj
    rcases hi with rfl | ⟨result, hresult⟩
    · exact ⟨is, [], s, deeds, c, p, rfl, follows, hc, hphase, hdone, rfl⟩
    · cases hresult
  | attended hseeks => exact later.attend (follows.examines_of_seeks hseeks) _ _
  | idle => simpa using later

/-- **Stages end early and clean up.** Whatever happens in a session, and whatever its other
calls do, an orchestration that has its result has left behind what this says, and nothing
else. Whether its run was canceled when the output ended is settled. -/
theorem Follows.leaves {comp : Composition} {o : CallOptions}
    {r : Except OrchestrationError Answer} (h : Follows e is s deeds)
    (hr : (requests is)[k]? = some (.orchestrate comp o)) (hc : s.calls[k]? = some c)
    (hphase : c.phase = .finished r) :
    Call.Leaves (Collected e is k) r (deedsOf k deeds) ∧
      ∀ b b', Collected e is k b → Collected e is k b' → b = b' := by
  have htidy := h.tidy hr hc
  rw [hphase] at htidy
  exact ⟨htidy, fun _ _ => h.collected_unique⟩

/-! ## A run that is given up

The runner finds the run canceled before its first instance. -/

namespace GivenUp

open Call.Shortfall (engine composition progress call first)

def begun : Input := .start "run" false (.orchestrate composition ⟨none, none, false⟩)

def inputs : List Input :=
  [begun, .call 0 .proceed, .call 0 (.returned (.error .canceled)), .call 0 .proceed]

def report : RunReport := ⟨"run", .canceled, [], #[], [], none⟩

/-- The session with its call in a phase. -/
def session (l : Ledger) (canceled : Bool) (phase : CallPhase) : Session :=
  ⟨l, [], [call canceled .empty phase]⟩

theorem follows : ∃ deeds, Follows engine inputs
    (session (Ledger.empty.countRun 0) true (.finished (.ok (.report report)))) deeds := by
  have h₁ : Follows engine [begun] ⟨.empty, [], [first]⟩ [] := .next .start rfl
  have h₂ : Follows engine [begun, .call 0 .proceed] (session .empty false (.running progress)) _ :=
    h₁.next (i := .call 0 .proceed) rfl
  have h₃ : Follows engine _ (session .empty true (.collecting progress)) _ :=
    h₂.next (i := .call 0 (.returned (.error .canceled))) rfl
  exact ⟨_, h₃.next (i := .call 0 .proceed) rfl⟩

end GivenUp

/-- The run is reported, and the runner was asked to stop what may be left. -/
theorem leaves_of_givenUp :
    ∃ deeds, Follows Call.Shortfall.engine GivenUp.inputs
        (GivenUp.session (Ledger.empty.countRun 0) true
          (.finished (.ok (.report GivenUp.report)))) deeds ∧
      Call.Leaves (Collected Call.Shortfall.engine GivenUp.inputs 0)
        (.ok (.report GivenUp.report)) (deedsOf 0 deeds) := by
  obtain ⟨deeds, h⟩ := GivenUp.follows
  exact ⟨deeds, h, (h.leaves rfl rfl rfl).1⟩

end Session

end Conductor
