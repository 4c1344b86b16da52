import Conductor.Proofs.Engine.Entries
import Conductor.Proofs.Engine.RunInput
/-!
# Engine — between an orchestration and its runner

The order of a run is made when an orchestration begins and stays as it is, and a result
that an orchestration goes on with was found in the cache or is entered in it. So what is
known of every entry of a session is known of all that its runners are handed, whichever
call has built it (`Session.Enters.provided`): a fact about results that does not depend on
their groups has to be shown where a builder returns, and nowhere else. On the other side,
an orchestration ends with the error of its runner only where the runner has returned it
(`Session.Follows.returned_of_runError`).
-/

namespace Conductor

namespace CallPhase

/-- The run that is wanted. -/
def order? : CallPhase → Option RunOrder
  | .building o _ => o
  | .gated o _ => some o
  | .running p => some p.order
  | .collecting p => some p.order
  | _ => none

/-- The results of builds with which the call goes on. -/
def results : CallPhase → List BuildResult
  | .building _ s => s.slots.filterMap fun slot => slot.progress.result?
  | .gated _ builds => builds
  | .running p => p.builds
  | .collecting p => p.builds
  | _ => []

/-- The error of the runner with which the call has ended. -/
def runError? : CallPhase → Option RunError
  | .finished (.error (.run x)) => some x
  | _ => none

theorem runError?_eq_some {phase : CallPhase} {x : RunError} :
    phase.runError? = some x ↔ phase = .finished (.error (.run x)) := by
  constructor
  · intro h
    unfold runError? at h
    split at h
    · cases h
      rfl
    · cases h
  · rintro rfl
    rfl

/-- On the way to the run: a phase has no order but the one given, and no results but those
given, and no runner has ended the call. -/
structure Within (phase : CallPhase) (order : Option RunOrder) (builds : List BuildResult) :
    Prop where
  order : ∀ o, phase.order? = some o → order = some o
  results : ∀ r ∈ phase.results, r ∈ builds
  unended : phase.runError? = none

theorem within_self {phase : CallPhase} (h : phase.runError? = none) :
    phase.Within phase.order? phase.results :=
  ⟨fun _ => id, fun _ => id, h⟩

/-- A call with its result goes on with nothing. -/
theorem within_finished {r : Except OrchestrationError Answer} {order : Option RunOrder}
    {builds : List BuildResult} (h : (CallPhase.finished r).runError? = none) :
    (CallPhase.finished r).Within order builds where
  order _ h := by cases h
  results _ h := by cases h
  unended := h

/-- The results of a stage are those of its units. -/
theorem mem_results_building {o : Option RunOrder} {s : BuildStage} {r : BuildResult} :
    r ∈ (CallPhase.building o s).results ↔
      ∃ slot ∈ s.slots, slot.progress.result? = some r :=
  List.mem_filterMap

end CallPhase

namespace Call

variable {e : Engine} {l l' : Ledger} {c c' : Call} {j : CallInput} {fx : List Effect}
  {comp : Composition} {Good : BuildResult → Prop} {runId : String} {canceled : Bool}
  {opts : CallOptions}

/-! ## From phase to phase -/

theorem within_startRun (p : RunProgress) :
    (c.startRun e p).1.phase.Within (some p.order) p.builds := by
  unfold startRun
  split
  · rename_i error herror
    obtain ⟨x, rfl⟩ := input_error herror
    exact CallPhase.within_finished rfl
  · split
    · exact CallPhase.within_finished rfl
    · exact CallPhase.within_self rfl

theorem within_gate (o : RunOrder) (builds : List BuildResult) :
    (c.gate e o builds).1.phase.Within (some o) builds := by
  unfold gate
  split
  · exact CallPhase.within_self rfl
  · exact within_startRun ⟨o, builds, none⟩

theorem within_concludeBuilds (o : Option RunOrder) (s : BuildStage) :
    (c.concludeBuilds e o s).1.phase.Within o (CallPhase.building o s).results := by
  unfold concludeBuilds BuildStage.outcome
  cases s.failure with
  | none =>
    -- the results of the stage are what its outcome is
    cases o with
    | none => exact CallPhase.within_finished rfl
    | some o => exact within_gate o _
  | some f =>
    have hfails : (CallPhase.finished (.error (if c.canceled then .canceled .build
        else .build f.groups f.error))).runError? = none := by
      cases c.canceled <;> rfl
    cases o with
    | none => exact CallPhase.within_finished hfails
    | some o => exact CallPhase.within_finished hfails

theorem within_passGate (o : RunOrder) (builds : List BuildResult) (r : HealthResult) :
    (c.passGate e o builds r).1.phase.Within (some o) builds := by
  unfold passGate
  cases r with
  | error error => exact CallPhase.within_finished rfl
  | ok report =>
    dsimp only
    cases o.policy.rejection? report with
    | some reason => exact CallPhase.within_finished rfl
    | none => exact within_startRun ⟨o, builds, some report⟩

/-- Where a result that is new to a call comes from: it was found in the cache, or is
entered. -/
def Obtains (l : Ledger) (c : Call) (j : CallInput) (r : BuildResult) : Prop :=
  (∃ fp hit ids, l.cache.get? fp = some hit ∧ r = hit.forGroups ids) ∨
    ∃ unit, c.entered j = some (unit, r)

/-- A phase behind an input has the order that there was, and the results that there were or
that are obtained. -/
structure Brings (l : Ledger) (c : Call) (j : CallInput) (phase : CallPhase) : Prop where
  order : ∀ o, phase.order? = some o → c.phase.order? = some o
  results : ∀ r ∈ phase.results, r ∈ c.phase.results ∨ Obtains l c j r

/-- Where nothing is obtained. -/
theorem Brings.of_within {old phase : CallPhase} (hold : c.phase = old)
    (h : phase.Within old.order? old.results) : Brings l c j phase where
  order := hold ▸ h.order
  results r hr := .inl (hold ▸ h.results r hr)

/-- Where the phase stays. -/
theorem Brings.stay : Brings l c j c.phase := ⟨fun _ => id, fun _ => .inl⟩

/-- A call with its result obtains nothing. -/
theorem Brings.finished {r : Except OrchestrationError Answer} : Brings l c j (.finished r) where
  order _ h := by cases h
  results _ h := by cases h

/-- A unit that moves on obtains the result that it then has. -/
theorem Brings.of_put {o : Option RunOrder} {s s' : BuildStage} {unit : Nat} {p : UnitProgress}
    (hold : c.phase = .building o s) (hslots : s'.slots = (s.put unit p).slots)
    (hp : ∀ r, p.result? = some r → Obtains l c j r) : Brings l c j (.building o s') := by
  refine ⟨fun o' ho' => by rw [hold]; exact ho', fun r hr => ?_⟩
  obtain ⟨slot, hslot, hresult⟩ := CallPhase.mem_results_building.1 hr
  rw [hslots] at hslot
  rw [hold]
  have hall := BuildStage.forall_put (s := s) (i := unit) (p := p)
    (P := fun slot => ∀ r, slot.progress.result? = some r →
      r ∈ (CallPhase.building o s).results ∨ Obtains l c j r)
    (fun slot hslot r hr => .inl (CallPhase.mem_results_building.2 ⟨slot, hslot, hr⟩))
    fun slot _ r hr => .inr (hp r hr)
  exact hall slot hslot r hresult

/-- **What a step brings.** -/
theorem Step.brings (h : Step e l c j l' c' fx) : Brings l c j c'.phase := by
  cases h with
  | cancel => exact .stay
  | collect => exact .stay
  | hangUp => exact .stay
  | build hphase hs =>
    rcases BuildStage.proceed_cases hs with ⟨i, u, hit, -, hget, rfl, -⟩ | ⟨i, u, -, -, rfl, -⟩ |
      ⟨i, u, -, rfl, -⟩
    · refine .of_put hphase rfl fun r hr => ?_
      cases hr
      exact .inl ⟨_, hit, _, hget, rfl⟩
    · exact .of_put hphase rfl fun r hr => by cases hr
    · exact .of_put hphase rfl fun r hr => by cases hr
  | conclude hphase => exact .of_within hphase (within_concludeBuilds _ _)
  | report => exact .finished
  | finish hphase hs =>
    obtain ⟨u, n, told, -, rfl, -⟩ := BuildStage.finish_cases hs
    exact .of_put hphase rfl fun r hr => by cases hr
  | @join o s s' unit l' hphase hs =>
    obtain ⟨-, u, n, how, hslot, ⟨out, rfl, rfl, -⟩ | ⟨failure, -, -, rfl⟩⟩ :=
      BuildStage.join_cases hs
    · refine .of_put hphase rfl fun r hr => .inr ⟨unit, ?_⟩
      cases hr
      rw [entered, hphase]
      simp only [hslot]
      rfl
    · exact .of_put (p := .joined none) hphase rfl fun r hr => by cases hr
  | pass hphase => exact .of_within hphase (within_passGate _ _ _)
  | healthy => exact .finished
  | unhealthy => exact .finished
  | @returned p r hphase =>
    have hcollecting : (CallPhase.collecting p).runError? = none := rfl
    have goesOn : Brings l c (.returned r) (.collecting p) :=
      .of_within hphase (CallPhase.within_self hcollecting)
    cases r with
    | ok out => exact goesOn
    | error error =>
      cases error with
      | canceled => exact goesOn
      | failed causes => exact .finished
      | invalidInput reason => exact .finished

/-! ## Provisions -/

/-- The runner of an order is one that is registered. -/
def Registered (e : Engine) (o : RunOrder) : Prop := ∃ s, e.registry.runner s = .ok o.runner

/-- What holds of an orchestration on its way to the run: its builds are as planned, its
runner is registered, and its results are good. -/
structure Provided (e : Engine) (comp : Composition) (Good : BuildResult → Prop)
    (phase : CallPhase) : Prop where
  equipped : Equipped e comp phase
  runner : ∀ o, phase.order? = some o → Registered e o
  results : ∀ r ∈ phase.results, Good r

/-- A runner is asked to start with the input of an order and of good results for it. -/
structure Hands (e : Engine) (comp : Composition) (Good : BuildResult → Prop) (s : Selector)
    (input : RunInput) (order : RunOrder) (runId : String) (builds : List BuildResult) :
    Prop where
  stored : Stored e comp order builds
  runner : Registered e order
  results : ∀ r ∈ builds, Good r
  selector : s = order.runner.id
  input : order.input e runId builds = .ok input

/-- Every runner that is asked to start is handed such an input. -/
def HandsAll (e : Engine) (comp : Composition) (Good : BuildResult → Prop) (fx : List Effect) :
    Prop :=
  ∀ s input, .run s input ∈ fx → ∃ order runId builds, Hands e comp Good s input order runId builds

theorem HandsAll.append {before after : List Effect} (h : HandsAll e comp Good before)
    (h' : HandsAll e comp Good after) : HandsAll e comp Good (before ++ after) :=
  fun s input hrun => (List.mem_append.1 hrun).elim (h s input) (h' s input)

/-- **The step lemma.** -/
theorem Step.provided (h : Step e l c j l' c' fx) (hp : Provided e comp Good c.phase)
    (hgroups : ∀ r ids, Good r → Good (r.forGroups ids))
    (hcache : ∀ fp r, l.cache.get? fp = some r → Good r)
    (hentered : ∀ unit r, c.entered j = some (unit, r) → Good r) :
    Provided e comp Good c'.phase ∧ HandsAll e comp Good fx := by
  have hbrings := h.brings
  have hgoes := h.goesOn hp.equipped
  have later : Provided e comp Good c'.phase := by
    refine ⟨hgoes.equipped, fun o ho => hp.runner o (hbrings.order o ho), fun r hr => ?_⟩
    rcases hbrings.results r hr with hold | ⟨fp, hit, ids, hget, rfl⟩ | ⟨unit, hnew⟩
    · exact hp.results r hold
    · exact hgroups hit ids (hcache fp hit hget)
    · exact hentered unit r hnew
  refine ⟨later, fun s input hrun => ?_⟩
  obtain ⟨p, runId, hphase, hs, hinput, hstored⟩ := hgoes.asks s input hrun
  have running : Provided e comp Good (.running p) := hphase ▸ later
  exact ⟨p.order, runId, p.builds, hstored, running.runner p.order rfl, running.results, hs, hinput⟩

/-- The runner that fits an orchestration was found. -/
theorem components_runner {v : ValidComposition} {b : Builder} {r : Runner}
    (h : components e v = .ok (b, r)) : ∃ s, e.registry.runner s = .ok r := by
  unfold components at h
  simp only [bind, Except.bind] at h
  cases hb : e.registry.builder v.builder with
  | error x => rw [hb] at h; cases h
  | ok b' =>
    rw [hb] at h
    cases hr : v.runner with
    | none => simp only [hr] at h; cases h
    | some s =>
      simp only [hr, Except.mapError] at h
      cases hx : e.registry.runner s with
      | error x => rw [hx] at h; cases h
      | ok r' =>
        rw [hx] at h
        cases hcompatible : r'.checkCompatible v.builder with
        | error x => simp only [hcompatible] at h; cases h
        | ok _ =>
          simp only [hcompatible] at h
          cases h
          exact ⟨s, hx⟩

/-- An orchestration that begins has a registered runner and no results. -/
theorem beginRun_provided {phase : CallPhase} (h : beginRun e canceled comp opts = .ok phase) :
    (∀ o, phase.order? = some o → Registered e o) ∧ phase.results = [] := by
  obtain ⟨v, b, order, stage, -, hcomponents, hplanned, rfl, -⟩ := beginRun_eq_ok h
  obtain ⟨-, -, -, hnew, -⟩ := BuildStage.planned_cases hplanned
  refine ⟨fun o ho => ?_, List.filterMap_eq_nil_iff.2 fun slot hslot => ?_⟩
  · cases ho
    exact components_runner hcomponents
  · rw [hnew slot hslot]
    rfl

/-- An orchestration begins provided, and asks no runner yet. -/
theorem provided_start : Provided e comp Good
      (start e runId canceled (.orchestrate comp opts)).1.phase ∧
    HandsAll e comp Good (start e runId canceled (.orchestrate comp opts)).2 := by
  have hequipped : Equipped e comp (start e runId canceled (.orchestrate comp opts)).1.phase :=
    orchestration_equipped
  cases hbegin : beginRun e canceled comp opts with
  | ok phase =>
    obtain ⟨hrunner, hresults⟩ := beginRun_provided hbegin
    simp only [start, hbegin] at hequipped ⊢
    exact ⟨⟨hequipped, hrunner, by simp [opened, hresults]⟩, fun _ _ h => by cases h⟩
  | error error =>
    simp only [start, hbegin] at hequipped ⊢
    refine ⟨⟨hequipped, fun _ ho => ?_, List.forall_mem_nil _⟩, ?_⟩
    · cases ho
    · simp [HandsAll, failureEvent]

/-! ## The error of a runner -/

/-- **The step lemma**: a call has ended with the error of its runner, or does so when the
runner returns it. -/
theorem Step.runError? {x : RunError} (h : Step e l c j l' c' fx)
    (hx : c'.phase.runError? = some x) :
    c.phase.runError? = some x ∨ j = .returned (.error x) := by
  cases h with
  | cancel => exact .inl hx
  | collect => exact .inl hx
  | hangUp => exact .inl hx
  | build => cases hx
  | conclude => rw [(within_concludeBuilds _ _).unended] at hx; cases hx
  | report => cases hx
  | finish => cases hx
  | join => cases hx
  | pass => rw [(within_passGate _ _ _).unended] at hx; cases hx
  | healthy => cases hx
  | unhealthy => cases hx
  | @returned p r hphase =>
    cases r with
    | ok out => cases hx
    | error error =>
      cases error with
      | canceled => cases hx
      | failed causes => cases hx; exact .inr rfl
      | invalidInput reason => cases hx; exact .inr rfl

/-- A call that has ended with the error of its runner stays so. -/
theorem Step.runError?_of {x : RunError} (h : Step e l c j l' c' fx)
    (hx : c.phase.runError? = some x) : c'.phase.runError? = some x := by
  rw [CallPhase.runError?_eq_some] at hx ⊢
  exact (h.finished hx).1

/-- No orchestration begins with the error of a runner. -/
theorem runError?_start :
    (start e runId canceled (.orchestrate comp opts)).1.phase.runError? = none := by
  rcases beginRun_cases e canceled comp opts with ⟨order, s, v, b, hbegin, -⟩ |
    ⟨error, hbegin, hearly⟩
  · simp only [start, hbegin]
    rfl
  · simp only [start, hbegin]
    cases error with
    | run x => exact hearly.elim
    | _ => rfl

end Call

namespace Session

variable {e : Engine} {s : Session} {is : List Input} {deeds : List Deed} {es : List Entry}
  {k : Nat} {c : Call} {comp : Composition} {o : CallOptions} {Good : BuildResult → Prop}

/-- **The run lemma.** What is known of every entry, whatever its groups are, is known of
the results of every orchestration, and of those its runner is handed. -/
theorem Enters.provided (h : Enters e is s deeds es)
    (hgroups : ∀ r ids, Good r → Good (r.forGroups ids)) (hgood : ∀ x ∈ es, Good x.result)
    (hr : (requests is)[k]? = some (.orchestrate comp o)) (hc : s.calls[k]? = some c) :
    Call.Provided e comp Good c.phase ∧ Call.HandsAll e comp Good (deedsOf k deeds) := by
  induction h generalizing c with
  | start => cases hc
  | @next is s t deeds more es i enters step ih =>
    obtain ⟨hbefore, hadded⟩ := List.forall_mem_append.1 hgood
    have hcache : ∀ fp r, s.ledger.cache.get? fp = some r → Good r := by
      intro fp r hget
      rw [enters.cache_eq] at hget
      obtain ⟨x, hx, rfl, -⟩ := exists_of_recorded hget
      exact hbefore x hx
    have earlier : ∀ {c₀}, s.calls[k]? = some c₀ →
        Call.Provided e comp Good c₀.phase ∧ Call.HandsAll e comp Good (deedsOf k deeds) := by
      intro c₀ hc₀
      rw [enters.follows.request_append (List.getElem?_eq_some_iff.1 hc₀).1] at hr
      exact ih hbefore hr hc₀
    rw [deedsOf_append]
    have hsees := Sees.of_step step hc
    generalize deedsOf k more = fx at hsees
    cases hsees with
    | begins runId canceled r hk =>
      rw [hk, enters.follows.request_start, Option.some.injEq] at hr
      subst hr
      rw [enters.follows.deedsOf_eq_nil (Nat.le_of_eq hk.symm), List.nil_append]
      exact Call.provided_start
    | @own _ c' j _ hc₀ hstep =>
      obtain ⟨hprovided, hhands⟩ := earlier hc₀
      obtain ⟨hlater, hnew⟩ := (Call.Step.of_step hstep).provided hprovided hgroups hcache
        fun unit r hentered => hadded ⟨k, unit, r⟩ (by
          rw [entered, hc₀, Option.bind_some, hentered]
          simp)
      exact ⟨hlater, hhands.append hnew⟩
    | told hc₀ hstep =>
      obtain ⟨hprovided, hhands⟩ := earlier hc₀
      obtain ⟨hlater, hnew⟩ := (Call.Step.of_step hstep).provided hprovided hgroups hcache
        fun unit r hentered => by cases hentered
      exact ⟨hlater, hhands.append hnew⟩
    | attended hc₀ =>
      obtain ⟨hprovided, hhands⟩ := earlier hc₀
      exact ⟨hprovided, hhands.append fun _ _ hrun => by simp at hrun⟩
    | idle hc₀ =>
      rw [List.append_nil]
      exact earlier hc₀

/-- **An orchestration ends with the error of its runner only where the runner has returned
it.** -/
theorem Follows.returned_of_runError {x : RunError} (h : Follows e is s deeds)
    (hr : (requests is)[k]? = some (.orchestrate comp o)) (hc : s.calls[k]? = some c)
    (hx : c.phase.runError? = some x) : .call k (.returned (.error x)) ∈ is := by
  refine h.along (Q := fun is c _ => c.phase.runError? = some x →
    .call k (.returned (.error x)) ∈ is) hc hr ?_ ?_ hx
  · intro is runId canceled hx
    rw [Call.runError?_start] at hx
    cases hx
  · intro is s deeds i c c' fx _ _ ih hturn hx
    cases hturn with
    | own hstep hi =>
      rcases (Call.Step.of_step hstep).runError? hx with hold | rfl
      · exact List.mem_append_left _ (ih hold)
      · rcases hi with rfl | ⟨r, hr⟩
        · exact List.mem_append_right _ (List.mem_singleton_self _)
        · cases hr
    | attended => exact List.mem_append_left _ (ih hx)
    | idle => exact List.mem_append_left _ (ih hx)

/-- **Where a runner has returned it was asked to start**, and a call ends with the error that
it has returned, unless that is a cancellation. -/
theorem Follows.of_returned {result : Except RunError RunOutput} (h : Follows e is s deeds)
    (hr : (requests is)[k]? = some (.orchestrate comp o)) (hc : s.calls[k]? = some c)
    (hin : .call k (.returned result) ∈ is) :
    (∃ runner input, ⟨k, .run runner input⟩ ∈ deeds) ∧
      ∀ x, result = .error x → x ≠ .canceled → c.phase.runError? = some x := by
  induction h generalizing c with
  | start => cases hc
  | @next is s t deeds more i follows step ih =>
    have earlier : k < s.calls.length → (requests is)[k]? = some (.orchestrate comp o) :=
      fun hlt => (follows.request_append hlt i).symm.trans hr
    rcases List.mem_append.1 hin with hin | hin
    · have hlt := follows.lt_of_input hin
      rcases (Move.of_step step).1.turn hc with ⟨hk, -⟩ | ⟨c₀, hc₀, hturn⟩
      · exact absurd hlt (by simp [hk])
      obtain ⟨⟨runner, input, hrun⟩, hends⟩ := ih (earlier hlt) hc₀ hin
      refine ⟨⟨runner, input, List.mem_append_left _ hrun⟩, fun x hx hne => ?_⟩
      generalize deedsOf k more = fx at hturn
      cases hturn with
      | own hstep _ => exact (Call.Step.of_step hstep).runError?_of (hends x hx hne)
      | attended => exact hends x hx hne
      | idle => exact hends x hx hne
    · -- the runner returns now
      cases List.mem_singleton.1 hin
      obtain ⟨c₀, l', c', fx, hc₀, hstep, -, -, hcalls, -⟩ := stepCall_cases step
      have hlt := (List.getElem?_eq_some_iff.1 hc₀).1
      rw [hcalls, List.getElem?_set_self hlt, Option.some.injEq] at hc
      subst hc
      cases Call.Step.of_step hstep with
      | @returned p _ hphase =>
        have htidy := follows.tidy (earlier hlt) hc₀
        rw [hphase] at htidy
        obtain ⟨input, hruns⟩ := htidy
        have hmem : Effect.run p.order.runner.id input ∈ Call.runs (deedsOf k deeds) := by
          simp [hruns]
        refine ⟨⟨_, input, List.mem_append_left _ (mem_deedsOf.1 (List.mem_filter.1 hmem).1)⟩, ?_⟩
        rintro x rfl hne
        cases x with
        | canceled => exact absurd rfl hne
        | failed causes => rfl
        | invalidInput reason => rfl

end Session

end Conductor
