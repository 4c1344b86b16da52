import Conductor.Proofs.Engine.BuildNumbers
import Conductor.Proofs.Engine.RunInput
import Conductor.Proofs.Run.ConsumerStep
/-!
# Engine — lifecycle events and counters

What an engine counts, what it reports and what it answers are three accounts of one
history. They agree wherever no call is in progress (`Session.Follows.accounts`): the
counters are what the events add up to, a build that has started is heard of once more
unless its task broke down, and an orchestration has told what its result says, with the
verdicts of a report instance by instance.
-/

namespace Conductor

attribute [ext] Metrics

namespace Collector

/-- The verdicts in a table that are final. -/
def finalOf (t : Table Verdict) : List Announcement := t.filter fun x => x.2 ≠ .running

variable {c c' : Collector} {canceled : Bool} {a : Action} {said : List Announcement}
  {ids : List String} {id : String} {v : Verdict} {t : Table Verdict}

/-- An instance that is new is final if its verdict is. -/
theorem finalOf_insert_of_not_mem (h : id ∉ t.keys) :
    (finalOf (t.insert id v)).Perm (finalOf [(id, v)] ++ finalOf t) := by
  have hperm := (Table.insert_perm_of_not_mem (v := v) h).filter fun x => x.2 ≠ .running
  rwa [← List.singleton_append, List.filter_append] at hperm

/-- An instance that was running is final when it has its verdict. -/
theorem finalOf_insert_of_running (h : t.Sorted) (hr : t.get? id = some .running)
    (hv : v ≠ .running) : (finalOf (t.insert id v)).Perm ((id, v) :: finalOf t) := by
  have hperm := (Table.insert_perm_of_get? (v := v) h hr).filter fun x => x.2 ≠ .running
  simpa [finalOf, hv] using hperm

/-- **What becomes final is announced.** -/
theorem Balanced.finalOf_act (h : Balanced ids canceled c)
    (distinct : (ids ++ a.registered).Nodup) (step : c.act canceled a = some (c', said)) :
    (finalOf c'.verdicts).Perm (said ++ finalOf c.verdicts) := by
  have hnew : ∀ {id}, a.registered = [id] → id ∉ c.verdicts.keys := by
    intro id ha
    rw [ha] at distinct
    exact fun hmem => not_mem_of_nodup_concat distinct ((h.keys id).1 hmem)
  cases ha : a.arrival? with
  | none =>
    obtain ⟨k, hk, htouches, -⟩ := act_touches step ha
    rw [htouches.verdicts]
    rcases htouches.said with rfl | ⟨v, rfl, hv, hc⟩
    · exact .rfl
    · have hrunning : c.verdicts.get? k.instanceId = some .running :=
        (h.running k.instanceId).2 ⟨k, (mem_of_consumer? hk).1, rfl, hc⟩
      exact finalOf_insert_of_running h.sorted hrunning hv
  | some x =>
    cases a with
    | manage id output errors =>
      cases step
      exact finalOf_insert_of_not_mem (hnew rfl)
    | failStart id reason =>
      cases step
      exact finalOf_insert_of_not_mem (hnew rfl)
    | read index channel => cases ha
    | quit index channel => cases ha

/-- Where no consumer is left, all verdicts are final. -/
theorem Balanced.finalOf_eq (h : Balanced ids canceled c) (done : c.isDone = true) :
    finalOf c.verdicts = c.verdicts :=
  List.filter_eq_self.2 fun x hx => by simpa using h.ne_running done x hx

end Collector

namespace Call

variable {e : Engine} {l l' : Ledger} {c c' : Call} {j : CallInput} {fx more : List Effect}
  {p : CallPhase} {ms : List LifecycleEvent} {runId : String} {es : List Collector.Event}
  {ids : List String}

/-- The call has its result. -/
def isFinished (c : Call) : Bool :=
  match c.phase with
  | .finished _ => true
  | _ => false

theorem exists_result (h : c.isFinished = true) : ∃ r, c.phase = .finished r := by
  unfold isFinished at h
  split at h
  · exact ⟨_, ‹_›⟩
  · cases h

theorem buildsOver_of_isFinished (h : c.isFinished = true) : c.BuildsOver := by
  obtain ⟨r, hphase⟩ := exists_result h
  rw [BuildsOver, hphase]
  rfl

/-! ## Verdicts -/

theorem Departure.verdicts_eq_nil (h : Departure runId p ms) :
    ms.filterMap LifecycleEvent.verdict? = [] := by
  cases h <;> rfl

/-- **Verdicts come with the output of instances only**: with a step of the collector what it
announces is reported, and with any other nothing is, and no verdict changes. -/
theorem Step.verdicts (h : Step e l c j l' c' fx) :
    (∃ a, j = .collect a ∧ c.collector.act c.canceled a = some (c'.collector, verdicts fx)) ∨
      Call.verdicts fx = [] ∧ c'.collector.verdicts = c.collector.verdicts := by
  cases h with
  | @collect a k said _ hact =>
    refine .inl ⟨a, rfl, ?_⟩
    have hsaid : verdicts (collectEffects c.echo c.collector k said) = said := by
      rw [verdicts_eq, news_collectEffects, List.filterMap_map]
      exact List.filterMap_some
    rw [hsaid]
    exact hact
  | cancel => exact .inr ⟨rfl, rfl⟩
  | hangUp => exact .inr ⟨rfl, rfl⟩
  | build _ hs =>
    refine .inr ⟨?_, rfl⟩
    rcases BuildStage.proceed_cases hs with ⟨_, _, _, _, _, _, _, rfl⟩ |
      ⟨_, _, _, _, _, _, rfl⟩ | ⟨_, _, _, _, _, rfl⟩
    all_goals rfl
  | finish _ hs =>
    obtain ⟨u, n, -, -, rfl⟩ := BuildStage.finish_reports hs
    exact .inr ⟨by rw [verdicts_eq, news_reports]; rfl, rfl⟩
  | join => exact .inr ⟨rfl, rfl⟩
  | @conclude o s =>
    refine .inr ⟨?_, by rw [(concludeBuilds_collector o s).1]⟩
    cases o with
    | some o => rw [verdicts_eq, (departure_concludeBuilds o s).verdicts_eq_nil]
    | none =>
      obtain ⟨r, hr, -⟩ := concludeBuilds_none (e := e) (c := c) s
      rw [hr]
      rfl
  | @pass o builds r =>
    refine .inr ⟨?_, by rw [(onward_passGate o builds r).collector.1]⟩
    rw [verdicts_eq, (departure_passGate o builds r).verdicts_eq_nil]
  | healthy => exact .inr ⟨rfl, rfl⟩
  | unhealthy => exact .inr ⟨rfl, rfl⟩
  | @returned p r =>
    match r with
    | .ok out => exact .inr ⟨rfl, rfl⟩
    | .error .canceled => exact .inr ⟨rfl, rfl⟩
    | .error (.failed causes) => exact .inr ⟨rfl, rfl⟩
    | .error (.invalidInput reason) => exact .inr ⟨rfl, rfl⟩
  | report =>
    refine .inr ⟨?_, rfl⟩
    rw [verdicts_eq, news_concludeRun]
    rfl

/-- What is reported of verdicts is what is final, where no two instances have one id. -/
structure Voiced (c : Call) (ids : List String) (fx : List Effect) : Prop where
  books : ∃ es, Collector.Follows es c.collector c.canceled ∧ Collector.registered es = ids
  final : ids.Nodup → (verdicts fx).Perm (Collector.finalOf c.collector.verdicts)

/-- **The step lemma.** -/
theorem Voiced.step (h : Voiced c ids fx) (step : Step e l c j l' c' more) :
    Voiced c' (ids ++ Collector.registered j.events) (fx ++ more) := by
  obtain ⟨⟨es, hes, hids⟩, hfinal⟩ := h
  refine ⟨⟨es ++ j.events, step.course hes, ?_⟩, fun distinct => ?_⟩
  · rw [Collector.registered, List.flatMap_append, ← hids]
    rfl
  · have hold := hfinal (List.nodup_append.1 distinct).1
    rw [verdicts_append]
    rcases step.verdicts with ⟨a, rfl, hact⟩ | ⟨hnone, hsame⟩
    · have hbalanced := hes.balanced (by rw [hids]; exact (List.nodup_append.1 distinct).1)
      rw [hids] at hbalanced
      have ha : Collector.registered (CallInput.collect a).events = a.registered := by
        simp [Collector.registered, CallInput.events, Collector.Event.registered]
      rw [ha] at distinct
      exact (List.perm_append_comm.trans (hold.append_left _)).trans
        (hbalanced.finalOf_act distinct hact).symm
    · rw [hnone, List.append_nil, hsame]
      exact hold

/-- A call begins without instances. -/
theorem voiced_start (e : Engine) (runId : String) (canceled : Bool) (r : Request) :
    Voiced (start e runId canceled r).1 [] (start e runId canceled r).2 := by
  obtain ⟨hcollector, hcanceled, hverdicts⟩ :
      (start e runId canceled r).1.collector = .empty ∧
        (start e runId canceled r).1.canceled = canceled ∧
          verdicts (start e runId canceled r).2 = [] := by
    cases r with
    | orchestrate comp o => simp only [start]; split <;> exact ⟨rfl, rfl, rfl⟩
    | build comp o => simp only [start]; split <;> exact ⟨rfl, rfl, rfl⟩
    | checkHealth runner fix =>
      simp only [start, beginCheck]
      split
      · exact ⟨rfl, rfl, rfl⟩
      · split <;> exact ⟨rfl, rfl, rfl⟩
  refine ⟨?_, fun _ => by rw [hverdicts, hcollector]; rfl⟩
  rw [hcollector, hcanceled]
  cases canceled with
  | true => exact ⟨[.cancel], .cancel .start, rfl⟩
  | false => exact ⟨[], .start, rfl⟩

/-- What says nothing of verdicts leaves them as they are. -/
theorem Voiced.append (h : Voiced c ids fx) (hmore : verdicts more = []) :
    Voiced c ids (fx ++ more) :=
  ⟨h.books, fun distinct => by rw [verdicts_append, hmore, List.append_nil]; exact h.final distinct⟩

/-! ## The books of a report -/

/-- The instances of a report are those of the collector, which has nothing left to do. -/
def Closed (c : Call) : Prop :=
  ∀ r, c.phase = .finished (.ok (.report r)) →
    c.collector.isDone = true ∧ r.instances = c.collector.verdicts

/-- The way to a run does not end with a report. -/
theorem Departure.ne_report (h : Departure runId p ms) (r : RunReport) :
    p ≠ .finished (.ok (.report r)) := by
  cases h <;> simp

/-- **The step lemma.** -/
theorem Closed.step (h : Closed c) (step : Step e l c j l' c' fx) : Closed c' := by
  intro r hr
  cases step with
  | cancel => exact h r hr
  | hangUp =>
    obtain ⟨hdone, hsame⟩ := h r hr
    refine ⟨?_, hsame⟩
    rw [Collector.isDone, List.isEmpty_iff] at hdone
    simp [Collector.isDone, Collector.closeStreams, hdone]
  | @collect a k said hmay hact =>
    -- a consumer that acts is one of those left, and a runner that has returned hands over none
    obtain ⟨hdone, -⟩ := h r hr
    rw [Collector.isDone, List.isEmpty_iff] at hdone
    cases ha : a.arrival? with
    | none =>
      obtain ⟨k, hk, -⟩ := Collector.act_touches hact ha
      have hmem := (Collector.mem_of_consumer? hk).1
      rw [hdone] at hmem
      cases hmem
    | some x =>
      change c.phase = _ at hr
      cases a with
      | manage id output errors => simp [mayCollect, hr] at hmay
      | failStart id reason => simp [mayCollect, hr] at hmay
      | read index channel => cases ha
      | quit index channel => cases ha
  | build => cases hr
  | finish => cases hr
  | join => cases hr
  | @conclude o s =>
    cases o with
    | some o => exact absurd hr ((departure_concludeBuilds o s).ne_report r)
    | none =>
      obtain ⟨r', hr', hne⟩ := concludeBuilds_none (e := e) (c := c) s
      rw [hr'] at hr
      cases hr
      exact absurd rfl (hne r)
  | @pass o builds result => exact absurd hr ((departure_passGate o builds result).ne_report r)
  | healthy => cases hr
  | unhealthy => cases hr
  | @returned p result =>
    cases result with
    | ok out => cases hr
    | error error => cases error <;> cases hr
  | report _ hdone =>
    cases hr
    exact ⟨hdone, rfl⟩

/-- A call does not begin with a report. -/
theorem start_ne_report (e : Engine) (runId : String) (canceled : Bool) (r : Request)
    (report : RunReport) :
    (start e runId canceled r).1.phase ≠ .finished (.ok (.report report)) := by
  intro hphase
  cases r with
  | orchestrate comp o =>
    rcases beginRun_cases e canceled comp o with ⟨order, s, -, -, hbegin, -⟩ | ⟨x, hbegin, -⟩
    · simp only [start, hbegin, opened] at hphase
      cases hphase
    · simp only [start, hbegin, opened] at hphase
      cases hphase
  | build comp o =>
    cases hbegin : beginBuild e canceled comp o with
    | ok phase =>
      obtain ⟨s, rfl, -⟩ := beginBuild_cases hbegin
      simp only [start, hbegin, opened] at hphase
      cases hphase
    | error x =>
      simp only [start, hbegin, opened] at hphase
      cases hphase
  | checkHealth runner fix =>
    simp only [start, beginCheck, opened] at hphase
    split at hphase
    · cases hphase
    · split at hphase <;> cases hphase

theorem closed_start (e : Engine) (runId : String) (canceled : Bool) (r : Request) :
    Closed (start e runId canceled r).1 :=
  fun report hphase => absurd hphase (start_ne_report e runId canceled r report)

/-- **What an orchestration has told** when it has its result: with a report the start and
the end of one run, and its verdicts one by one; with an error the failure of a stage,
behind the start of the run if it got so far. -/
def Heralded (r : Except OrchestrationError Answer) (fx : List Effect) : Prop :=
  match r with
  | .ok (.report r) =>
    (∃ plan case runner total, milestones fx = [.runStarted r.runId plan case runner total,
        .runFinished r.runId r.outcome (failedOf r.outcome)]) ∧
      (verdicts fx).Perm r.instances
  | .ok _ => False
  | .error x => milestones fx = [.stageFailed x.stage x.message] ∨
      ∃ runId plan case runner total, milestones fx =
        [.runStarted runId plan case runner total, .stageFailed x.stage x.message]

/-- An orchestration has told its result. -/
theorem heralded_of_marked {r : Except OrchestrationError Answer} (hphase : c.phase = .finished r)
    (hmarked : Marked runId c.phase (milestones fx)) (hclosed : Closed c)
    (hvoiced : Voiced c ids fx) (distinct : ids.Nodup) : Heralded r fx := by
  rw [hphase] at hmarked
  match r with
  | .ok (.report report) =>
    obtain ⟨hrun, before, ⟨plan, case, runner, total, rfl⟩, hms⟩ := hmarked
    obtain ⟨hdone, hinstances⟩ := hclosed report hphase
    obtain ⟨es, hes, hids⟩ := hvoiced.books
    have hbalanced := hes.balanced (by rw [hids]; exact distinct)
    have hfinal := hvoiced.final distinct
    rw [hbalanced.finalOf_eq hdone, ← hinstances] at hfinal
    exact ⟨⟨plan, case, runner, total, by rw [hms, hrun]; rfl⟩, hfinal⟩
  | .ok (.builds builds) => exact hmarked
  | .ok (.health report) => exact hmarked
  | .error x =>
    obtain ⟨before, rfl | ⟨plan, case, runner, total, rfl⟩, hms⟩ := hmarked
    · exact .inl hms
    · exact .inr ⟨runId, plan, case, runner, total, hms⟩

end Call

namespace Session

open Call (Voiced Marked Closed Heralded milestones verdicts handed)

/-- What happens to a call by an input. -/
def Input.to (k : Nat) : Input → Option CallInput
  | .call n j => if n = k then some j else none
  | _ => none

/-- What happened to a call. -/
def inputsOf (k : Nat) (is : List Input) : List CallInput := is.filterMap (Input.to k)

variable {e : Engine} {s t : Session} {i : Input} {is : List Input} {deeds more : List Deed}
  {k : Nat} {c : Call} {comp : Composition} {o : CallOptions}

/-- Nothing happens to a call by the input of another. -/
theorem Input.to_eq_none (h : ∀ j, i ≠ .call k j) : i.to k = none := by
  cases i with
  | call n j =>
    have hn : n ≠ k := fun hn => h j (hn ▸ rfl)
    simp [Input.to, hn]
  | _ => rfl

/-- The instances of a call, and those that come with an input. -/
theorem handed_inputsOf (i : Input) : handed (inputsOf k (is ++ [i])) =
    handed (inputsOf k is) ++ (i.to k).toList.flatMap fun j => Collector.registered j.events := by
  rw [inputsOf, List.filterMap_append]
  cases hi : i.to k with
  | none => simp [inputsOf, hi]
  | some j =>
    have hone : [i].filterMap (Input.to k) = [j] := by simp [hi]
    rw [hone, Call.handed_append]
    simp [inputsOf]

/-- Nothing happens to a call that has not begun, and it does nothing. -/
theorem Follows.unborn (h : Follows e is s deeds) (hk : s.calls.length ≤ k) :
    inputsOf k is = [] ∧ deedsOf k deeds = [] := by
  refine ⟨List.filterMap_eq_nil_iff.2 fun i hi => Input.to_eq_none fun j heq => ?_,
    h.deedsOf_eq_nil hk⟩
  exact absurd (h.lt_of_input (heq ▸ hi)) (Nat.not_lt.2 hk)

/-- **What a call has reported of verdicts** is what is final, at every point. -/
theorem Follows.voiced (h : Follows e is s deeds) (hc : s.calls[k]? = some c) :
    Voiced c (handed (inputsOf k is)) (deedsOf k deeds) := by
  induction h generalizing c with
  | start => cases hc
  | @next is s t deeds more i follows step ih =>
    have hsees := Sees.of_step step hc
    rw [handed_inputsOf, deedsOf_append]
    generalize deedsOf k more = fx at hsees
    cases hsees with
    | begins runId canceled r hk =>
      obtain ⟨hinputs, hdeeds⟩ := follows.unborn (k := k) (Nat.le_of_eq hk.symm)
      rw [hinputs, hdeeds]
      exact Call.voiced_start e runId canceled r
    | own hc₀ hstep =>
      have hvoiced := (ih hc₀).step (.of_step hstep)
      simpa [Input.to] using hvoiced
    | told hc₀ hstep =>
      have hvoiced := (ih hc₀).step (.of_step hstep)
      simpa [Input.to, Collector.registered, CallInput.events] using hvoiced
    | attended hc₀ => simpa [Input.to] using (ih hc₀).append rfl
    | idle hc₀ hi => simpa [Input.to_eq_none hi] using ih hc₀

/-- **What an orchestration has told** goes with its phase, at every point. -/
theorem Follows.marked (h : Follows e is s deeds)
    (hr : (requests is)[k]? = some (.orchestrate comp o)) (hc : s.calls[k]? = some c) :
    Marked c.runId c.phase (milestones (deedsOf k deeds)) ∧ Closed c := by
  refine h.along (Q := fun _ c fx => Marked c.runId c.phase (milestones fx) ∧ Closed c) hc hr
    (fun is runId canceled => ⟨?_, Call.closed_start e runId canceled _⟩) ?_
  · have hrun : (Call.start e runId canceled (.orchestrate comp o)).1.runId = runId := by
      simp only [Call.start]
      split <;> rfl
    rw [hrun]
    exact Call.marked_start e runId canceled comp o
  · intro is s deeds i c c' fx _ _ ih hturn
    cases hturn with
    | own hstep _ =>
      obtain ⟨hmarks, hrun⟩ := Call.Marks.of_step (.of_step hstep)
      refine ⟨?_, ih.2.step (.of_step hstep)⟩
      rw [Call.milestones_append, Call.milestones_eq fx, hrun]
      exact ih.1.step hmarks
    | @attended runner n hseeks =>
      have hnone : milestones [.attend runner n] = [] := rfl
      rw [Call.milestones_append, hnone, List.append_nil]
      exact ih
    | idle => simpa using ih

/-! ## Three accounts -/

/-- A build of a call whose builds are over has ended, once. -/
theorem Follows.ended {b : Selector} {unit : Nat} {input : BuildInput} (h : Follows e is s deeds)
    (hc : s.calls[k]? = some c) (hover : c.BuildsOver) (hask : ⟨k, .build b unit input⟩ ∈ deeds) :
    ∃ how, endsOf k unit is = [how] := by
  obtain ⟨es, henters⟩ := h.enters
  have hmem : (b, input) ∈ (storyOf k is deeds es unit).asks :=
    BuildStage.mem_asked.2 (mem_deedsOf.2 hask)
  rcases (henters.recounted hc).of_over hover unit with hstory | ⟨b', input', how, hstory⟩
  · rw [hstory] at hmem
    cases hmem
  · exact ⟨how, congrArg Call.Story.ends hstory⟩

/-- **Counters, events and results agree** wherever no call is in progress, whatever calls
there were and however their steps fell together. The counters are what the events add up
to. A build that has started has ended, once, and is heard of twice under its number, or
once if its task broke down. And an orchestration, with instances of distinct ids, has told
what its result says. -/
theorem Follows.accounts (h : Follows e is s deeds)
    (idle : ∀ c ∈ s.calls, c.isFinished = true) :
    s.ledger.metrics = Metrics.ofEvents (told deeds) ∧
      (∀ n b groups, .buildStarted n b groups ∈ told deeds →
        ∃ k unit input how, ⟨k, .build b unit input⟩ ∈ deeds ∧ input.build = n ∧
          input.groupIds = groups ∧ endsOf k unit is = [how] ∧
          heardOf n deeds = .buildStarted n b groups :: how.reports n) ∧
      ∀ k comp o, (requests is)[k]? = some (.orchestrate comp o) →
        (handed (inputsOf k is)).Nodup →
          ∃ c r, s.calls[k]? = some c ∧ c.phase = .finished r ∧ Heralded r (deedsOf k deeds) := by
  have hover : ∀ c ∈ s.calls, c.BuildsOver := fun c hc => Call.buildsOver_of_isFinished (idle c hc)
  have hcall : ∀ k, k < s.calls.length → ∃ c, s.calls[k]? = some c ∧ c ∈ s.calls :=
    fun k hk => ⟨s.calls[k], List.getElem?_eq_getElem hk, List.getElem_mem hk⟩
  refine ⟨?_, fun n b groups hstarted => ?_, fun k comp o hr distinct => ?_⟩
  · obtain ⟨hexecuted, hhits, hcompleted, hfailed⟩ := h.counts
    have hnone : s.uncounted = 0 := List.sum_eq_zero fun n hn => by
      obtain ⟨c, hc, rfl⟩ := List.mem_map.1 hn
      exact Call.uncounted_of_over (hover c hc)
    simp only [hnone, Metrics.zero, Nat.add_zero, Nat.zero_add] at *
    exact Metrics.ext hexecuted hhits hcompleted hfailed
  · obtain ⟨es, henters⟩ := h.enters
    obtain ⟨k, unit, input, hask, hn, hgroups, hheard⟩ := henters.heard hstarted
    obtain ⟨c, hc, hmem⟩ := hcall k (h.lt_of_mem hask)
    obtain ⟨how, hhow⟩ := h.ended hc (hover c hmem) hask
    exact ⟨k, unit, input, how, hask, hn, hgroups, hhow, by simpa [hhow] using hheard⟩
  · have hlt : k < s.calls.length := by
      rw [h.length_calls]
      exact (List.getElem?_eq_some_iff.1 hr).1
    obtain ⟨c, hc, hmem⟩ := hcall k hlt
    obtain ⟨r, hphase⟩ := Call.exists_result (idle c hmem)
    obtain ⟨hmarked, hclosed⟩ := h.marked hr hc
    exact ⟨c, r, hc, hphase,
      Call.heralded_of_marked hphase hmarked hclosed (h.voiced hc) distinct⟩

/-! ## Instances that do not start

A group of two instances is built, and its runner can start neither of them. -/

namespace Unstarted
open Call.Reuse (engine composition order stage builder)

def begun : Input := .start "run" false (.orchestrate composition ⟨none, none, false⟩)

def output : BuildOutput := ⟨"/bin/p", []⟩

def inputs : List Input :=
  [begun, .call 0 .proceed, .call 0 .proceed, .call 0 (.finish 0 (.returned (.ok output))),
    .call 0 (.join 0), .call 0 .proceed, .call 0 (.collect (.failStart "p[000]" "no file")),
    .call 0 (.collect (.failStart "p[001]" "no file")), .call 0 (.returned (.ok ⟨"run", 0, 2⟩)),
    .call 0 .proceed]

/-- The session with its call in a phase. -/
def session (l : Ledger) (phase : CallPhase) : Session :=
  ⟨l, [], [Call.opened "run" false false phase]⟩

theorem built : ∃ u deeds, Follows engine
    [begun, .call 0 .proceed, .call 0 .proceed, .call 0 (.finish 0 (.returned (.ok output))),
      .call 0 (.join 0)]
    (session (Ledger.empty.countStart.enter ((stage u .planned).resultOf u output))
      (.building (some order)
        (stage u (.joined (some ((stage u .planned).resultOf u output)))))) deeds := by
  obtain ⟨u, hbegin⟩ : ∃ u, Call.beginRun engine false composition ⟨none, none, false⟩ =
      .ok (.building (some order) (stage u .planned)) := ⟨_, rfl⟩
  have hstart : (ofEngine engine).step engine begun =
      some (session .empty (.building (some order) (stage u .planned)), []) := by
    simp only [begun, step, start, Call.start, hbegin]
    rfl
  have h₀ : Follows engine [begun]
      (session .empty (.building (some order) (stage u .planned))) [] := .next .start hstart
  have h₁ : Follows engine _ (session .empty (.building (some order) (stage u .missing))) _ :=
    h₀.next (i := .call 0 .proceed) rfl
  have h₂ : Follows engine _
      (session Ledger.empty.countStart (.building (some order) (stage u (.building 0)))) _ :=
    h₁.next (i := .call 0 .proceed) rfl
  have h₃ := h₂.next (i := .call 0 (.finish 0 (.returned (.ok output)))) rfl
  exact ⟨u, _, h₃.next (i := .call 0 (.join 0)) rfl⟩

theorem follows : ∃ s deeds, Follows engine inputs s deeds ∧
    (∀ c ∈ s.calls, c.isFinished = true) ∧ s.ledger.metrics = ⟨1, 0, 1, 2⟩ := by
  obtain ⟨u, deeds, h₄⟩ := built
  have h₅ := h₄.next (i := .call 0 .proceed) rfl
  have h₆ := h₅.next (i := .call 0 (.collect (.failStart "p[000]" "no file"))) rfl
  have h₇ := h₆.next (i := .call 0 (.collect (.failStart "p[001]" "no file"))) rfl
  have h₈ := h₇.next (i := .call 0 (.returned (.ok ⟨"run", 0, 2⟩))) rfl
  exact ⟨_, _, h₈.next (i := .call 0 .proceed) rfl, List.forall_mem_singleton.2 rfl, rfl⟩

end Unstarted

/-- The build and the two failures are counted as they were told. -/
theorem accounts_of_unstarted : ∃ s deeds, Follows Call.Reuse.engine Unstarted.inputs s deeds ∧
    Metrics.ofEvents (told deeds) = ⟨1, 0, 1, 2⟩ ∧
      ∃ c r, s.calls[0]? = some c ∧ c.phase = .finished r ∧ Heralded r (deedsOf 0 deeds) := by
  obtain ⟨s, deeds, hfollows, hidle, hmetrics⟩ := Unstarted.follows
  obtain ⟨hcounters, -, hheralded⟩ := hfollows.accounts hidle
  have hinstances : handed (inputsOf 0 Unstarted.inputs) = ["p[000]", "p[001]"] := rfl
  have hdistinct : (handed (inputsOf 0 Unstarted.inputs)).Nodup := by
    rw [hinstances]
    decide
  exact ⟨s, deeds, hfollows, hcounters.symm.trans hmetrics, hheralded 0 _ _ rfl hdistinct⟩

end Session

end Conductor
