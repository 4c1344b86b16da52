import Conductor.Local.Config
import Conductor.Proofs.Engine.Step
import Conductor.Proofs.Run.Bookkeeping
/-!
# Engine — what a successful run has run

A run is reported as a success when no instance failed and none was cut short.
Whether all instances are there is not looked at: that is left to the runner,
which hands over each of them when it returns without an error, and may stop
short of that once the run is canceled (`RunnerKeeps`). `Call.Reported` is what
holds of a call at every point of its way (`Call.Follows.reported`), and
`Call.Follows.success_incomplete_iff` reads it at the end: a success is
incomplete exactly where the runner gave up after instances that all passed.
-/

namespace Conductor

/-! ## What the collector is told -/

/-- The part of what happens to a call that its collector and its cancellation
see. A runner that returns because the run is canceled cancels the run. -/
def CallInput.events : CallInput → List Collector.Event
  | .cancel => [.cancel]
  | .collect a => [.act a]
  | .hangUp => [.hangUp]
  | .returned (.error .canceled) => [.cancel]
  | _ => []

namespace Call

/-- The course of the run of a call, which may be canceled from the beginning. -/
def course (canceled : Bool) (is : List CallInput) : List Collector.Event :=
  (if canceled then [.cancel] else []) ++ is.flatMap CallInput.events

/-- The instances that the runner has handed over, in order. -/
def handed (is : List CallInput) : List String :=
  Collector.registered (is.flatMap CallInput.events)

/-- **What a runner promises** for a run of so many instances: no two instances
have one id; it has handed over all of them when it returns without an error; and
when it returns because the run is canceled, which the run is by then, it may
have handed over fewer, but not more. -/
structure RunnerKeeps (total : Nat) (canceled : Bool) (is : List CallInput) : Prop where
  distinct : (handed is).Nodup
  complete : ∀ out, .returned (.ok out) ∈ is → (handed is).length = total
  bounded : .returned (.error .canceled) ∈ is → (handed is).length ≤ total
  canceled : ∀ before after, is = before ++ .returned (.error .canceled) :: after →
    canceled = true ∨ .cancel ∈ before

variable {e : Engine} {l l' : Ledger} {c c' c₀ : Call} {i : CallInput}
  {is : List CallInput} {fx fx' : List Effect} {v : ValidComposition} {canceled : Bool}
  {a : Collector.Action}

/-! ## The course of a call is one of its collector -/

theorem course_append (canceled : Bool) (is : List CallInput) (i : CallInput) :
    course canceled (is ++ [i]) = course canceled is ++ i.events := by
  simp [course]

theorem handed_append (is : List CallInput) (i : CallInput) :
    handed (is ++ [i]) = handed is ++ Collector.registered i.events := by
  simp [handed, Collector.registered]

/-- The course registers what the runner has handed over. -/
theorem registered_course (canceled : Bool) (is : List CallInput) :
    Collector.registered (course canceled is) = handed is := by
  cases canceled <;> simp [course, handed, Collector.registered, Collector.Event.registered]

/-- What goes on from the builds leaves the collector alone. -/
theorem Onward.collector {o : RunOrder} (h : Onward e c o c' fx) :
    c'.collector = c.collector ∧ c'.canceled = c.canceled := by
  cases h <;> exact ⟨rfl, rfl⟩

/-- So does the end of the builds. -/
theorem concludeBuilds_collector (o : Option RunOrder) (s : BuildStage) :
    (c.concludeBuilds e o s).1.collector = c.collector ∧
      (c.concludeBuilds e o s).1.canceled = c.canceled := by
  cases o with
  | some o => exact (onward_concludeBuilds o s).collector
  | none => unfold concludeBuilds; cases s.outcome c.canceled <;> exact ⟨rfl, rfl⟩

/-- **A step of a call is one of its collector**, or none. -/
theorem Step.course {es : List Collector.Event} (h : Step e l c i l' c' fx)
    (hes : Collector.Follows es c.collector c.canceled) :
    Collector.Follows (es ++ i.events) c'.collector c'.canceled := by
  have stay : ∀ {d : Call}, d.collector = c.collector ∧ d.canceled = c.canceled →
      Collector.Follows (es ++ []) d.collector d.canceled := by
    rintro d ⟨hk, hc⟩
    rwa [List.append_nil, hk, hc]
  cases h with
  | cancel => exact hes.cancel
  | build => exact stay ⟨rfl, rfl⟩
  | conclude => exact stay (concludeBuilds_collector _ _)
  | report => exact stay ⟨rfl, rfl⟩
  | finish => exact stay ⟨rfl, rfl⟩
  | join => exact stay ⟨rfl, rfl⟩
  | @pass o builds r => exact stay (onward_passGate o builds r).collector
  | healthy => exact stay ⟨rfl, rfl⟩
  | unhealthy => exact stay ⟨rfl, rfl⟩
  | collect hmay hact => exact hes.act hact
  | hangUp => exact hes.hangUp
  | @returned p r =>
    match r with
    | .ok out => exact stay ⟨rfl, rfl⟩
    | .error .canceled => exact hes.cancel
    | .error (.failed causes) => exact stay ⟨rfl, rfl⟩
    | .error (.invalidInput reason) => exact stay ⟨rfl, rfl⟩

/-- The collector behind a call is that behind the course of the call. -/
theorem Follows.course (h : Follows e c₀ is c fx) (h₀ : c₀.collector = .empty) :
    Collector.Follows (course c₀.canceled is) c.collector c.canceled := by
  induction h with
  | start =>
    rw [h₀]
    cases c₀.canceled
    · exact .start
    · exact .cancel .start
  | next _ step ih =>
    rw [course_append]
    exact (Step.of_step step).course ih

/-! ## How far a run is -/

/-- The runner has been asked for a run of so many instances. -/
def Asked (total : Nat) (fx : List Effect) : Prop :=
  ∃ s input, .run s input ∈ fx ∧ input.total = total

/-- The runner has returned, and left instances to wait for. -/
def Returned (is : List CallInput) (canceled : Bool) : Prop :=
  (∃ out, .returned (.ok out) ∈ is) ∨ .returned (.error .canceled) ∈ is ∧ canceled = true

/-- The books of a report are those of a collector that was done when the runner
had returned. -/
def Faithful (is : List CallInput) (r : RunReport) : Prop :=
  ∃ (es : List Collector.Event) (k : Collector) (canceled : Bool),
    Collector.Follows es k canceled ∧ Collector.registered es = handed is ∧ k.isDone = true ∧
      r.outcome = k.outcome canceled ∧ r.instances = k.verdicts ∧ Returned is canceled

/-- **How far the run is** of a call that was asked to run `v`. -/
def Reported (v : ValidComposition) (is : List CallInput) (fx : List Effect) (c : Call) : Prop :=
  match c.phase with
  | .building o _ => ∃ order, o = some order ∧ order.composition = v
  | .gated order _ => order.composition = v
  | .examining _ => False
  | .running p => p.order.composition = v ∧ Asked v.total fx
  | .collecting p => p.order.composition = v ∧ Asked v.total fx ∧ Returned is c.canceled
  | .finished (.ok (.report r)) => Asked v.total fx ∧ Faithful is r
  | .finished _ => True

theorem Asked.mono (h : Asked v.total fx) : Asked v.total (fx ++ fx') := by
  obtain ⟨s, input, hmem, htotal⟩ := h
  exact ⟨s, input, List.mem_append_left fx' hmem, htotal⟩

theorem Returned.mono (h : Returned is canceled) (i : CallInput) :
    Returned (is ++ [i]) canceled := by
  rcases h with ⟨out, hmem⟩ | ⟨hmem, hc⟩
  · exact .inl ⟨out, List.mem_append_left [i] hmem⟩
  · exact .inr ⟨List.mem_append_left [i] hmem, hc⟩

/-- The books of a report stay as they are, for no instance is handed over
behind it. -/
theorem Faithful.mono {r : RunReport} (h : Faithful is r) (hi : handed (is ++ [i]) = handed is) :
    Faithful (is ++ [i]) r := by
  obtain ⟨es, k, canceled, hes, hids, hdone, hout, hbooks, hret⟩ := h
  exact ⟨es, k, canceled, hes, hids.trans hi.symm, hdone, hout, hbooks, hret.mono i⟩

/-- A phase that stays is as far as it was. -/
theorem Reported.stay (h : Reported v is fx c) (hphase : c'.phase = c.phase)
    (hc : c.canceled = true → c'.canceled = true) (hi : handed (is ++ [i]) = handed is ∨
      ∃ p, c.phase = .running p) : Reported v (is ++ [i]) (fx ++ fx') c' := by
  unfold Reported at h ⊢
  rw [hphase]
  split at h
  · exact h
  · exact h
  · exact h
  · exact ⟨h.1, h.2.mono⟩
  · obtain ⟨hv, hasked, hret⟩ := h
    refine ⟨hv, hasked.mono, ?_⟩
    -- a run that is canceled stays so
    rcases hret.mono i with hok | ⟨hmem, hcanceled⟩
    · exact .inl hok
    · exact .inr ⟨hmem, hc hcanceled⟩
  · rename_i r hfin
    refine ⟨h.1.mono, h.2.mono ?_⟩
    rcases hi with hi | ⟨p, hp⟩
    · exact hi
    · rw [hp] at hfin
      cases hfin
  · trivial

/-- What comes of the builds is as far as the run it asks for. -/
theorem Onward.reported {o : RunOrder} (h : Onward e c o c' fx') (ho : o.composition = v) :
    Reported v is (fx ++ fx') c' := by
  cases h with
  | fails error told => trivial
  | waits builds fix => exact ho
  | runs p input told hp hinput hc =>
    refine ⟨hp ▸ ho, o.runner.id, input, by simp, ?_⟩
    unfold RunOrder.input at hinput
    split at hinput
    · cases hinput
    · cases hinput
      rw [← ho]

/-- Only a runner that was asked hands over instances. -/
theorem handed_collect (hmay : c.mayCollect a = true) :
    handed (is ++ [.collect a]) = handed is ∨ ∃ p, c.phase = .running p := by
  cases a with
  | manage id output errors =>
    simp only [mayCollect] at hmay
    split at hmay
    · rename_i p hp
      exact .inr ⟨p, hp⟩
    · cases hmay
  | failStart id reason =>
    simp only [mayCollect] at hmay
    split at hmay
    · rename_i p hp
      exact .inr ⟨p, hp⟩
    · cases hmay
  | read index channel => exact .inl (by rw [handed_append]; exact List.append_nil _)
  | quit index channel => exact .inl (by rw [handed_append]; exact List.append_nil _)

/-- What is no action of the collector hands over nothing. -/
theorem handed_of_registered_nil (h : Collector.registered i.events = []) :
    handed (is ++ [i]) = handed is := by
  rw [handed_append, h, List.append_nil]

/-- What holds of a call holds of it in the phase that it is in. -/
theorem Reported.enter {p : CallPhase} (h : Reported v is fx c) (hphase : c.phase = p) :
    Reported v is fx (c.enter p) := hphase ▸ h

/-- **The step lemma**: a step of a call takes its run as far as it says. -/
theorem Step.reported (h : Step e l c i l' c' fx') (hr : Reported v is fx c)
    {es : List Collector.Event} (hes : Collector.Follows es c.collector c.canceled)
    (hids : Collector.registered es = handed is) : Reported v (is ++ [i]) (fx ++ fx') c' := by
  cases h with
  | cancel => exact hr.stay rfl (fun _ => rfl) (.inl (handed_of_registered_nil rfl))
  | build hphase _ => exact hr.enter hphase
  | @conclude o s hphase _ _ =>
    obtain ⟨order, rfl, ho⟩ := hr.enter hphase
    exact (onward_concludeBuilds order s).reported ho
  | @report p hphase hdone =>
    -- the books of the report are those of the collector, which is done
    obtain ⟨-, hasked, hret⟩ := hr.enter hphase
    refine ⟨hasked.mono, es, c.collector, c.canceled, hes, ?_, hdone, rfl, rfl, hret.mono _⟩
    rw [hids, handed_of_registered_nil rfl]
  | finish hphase _ => exact hr.enter hphase
  | join hphase _ => exact hr.enter hphase
  | @pass o builds r hphase => exact (onward_passGate o builds r).reported (hr.enter hphase)
  | healthy hphase => exact (hr.enter hphase).elim
  | unhealthy hphase => exact (hr.enter hphase).elim
  | collect hmay _ => exact hr.stay rfl id (handed_collect hmay)
  | hangUp => exact hr.stay rfl id (.inl (handed_of_registered_nil rfl))
  | @returned p r hphase =>
    obtain ⟨ho, hasked⟩ := hr.enter hphase
    match r with
    | .ok out => exact ⟨ho, hasked.mono, .inl ⟨out, by simp⟩⟩
    | .error .canceled => exact ⟨ho, hasked.mono, .inr ⟨by simp, rfl⟩⟩
    | .error (.failed causes) => trivial
    | .error (.invalidInput reason) => trivial

/-! ## Orchestrations -/

/-- The call that an orchestration begins as. -/
def orchestration (e : Engine) (runId : String) (canceled : Bool) (comp : Composition)
    (o : CallOptions) : Call :=
  (start e runId canceled (.orchestrate comp o)).1

variable {runId : String} {comp : Composition} {o : CallOptions}

/-- It begins in its first phase. -/
theorem orchestration_of_ok {phase : CallPhase} (h : beginRun e canceled comp o = .ok phase) :
    orchestration e runId canceled comp o = opened runId canceled o.echo phase := by
  simp only [orchestration, start, h]

/-- Without one it is over at once. -/
theorem orchestration_of_error {error : OrchestrationError}
    (h : beginRun e canceled comp o = .error error) :
    orchestration e runId canceled comp o =
      opened runId canceled o.echo (.finished (.error error)) := by
  simp only [orchestration, start, h]

theorem orchestration_collector :
    (orchestration e runId canceled comp o).collector = .empty ∧
      (orchestration e runId canceled comp o).canceled = canceled := by
  cases hbegin : beginRun e canceled comp o with
  | ok phase =>
    rw [orchestration_of_ok hbegin]
    exact ⟨rfl, rfl⟩
  | error error =>
    rw [orchestration_of_error hbegin]
    exact ⟨rfl, rfl⟩

/-- An orchestration begins with the builds of a valid composition, unless it is over. -/
theorem orchestration_reported (hv : comp.validate = .ok v) :
    Reported v [] [] (orchestration e runId canceled comp o) := by
  cases hbegin : beginRun e canceled comp o with
  | error error =>
    rw [orchestration_of_error hbegin]
    trivial
  | ok phase =>
    rw [orchestration_of_ok hbegin]
    unfold beginRun at hbegin
    rw [hv] at hbegin
    simp only [Except.mapError, bind, Except.bind] at hbegin
    split at hbegin
    · cases hbegin
    · split at hbegin
      · cases hbegin
      · cases hbegin
        exact ⟨_, rfl, rfl⟩

/-- A composition that is not valid is not run. -/
theorem beginRun_invalid {vs : List Violation} (hv : comp.validate = .error vs) :
    beginRun e canceled comp o = .error (.validation vs) := by
  unfold beginRun
  rw [hv]
  rfl

/-- **The run lemma**: at every point of its way an orchestration is as far as it
says. -/
theorem Follows.reported (hv : comp.validate = .ok v)
    (h : Follows e (orchestration e runId canceled comp o) is c fx) : Reported v is fx c := by
  induction h with
  | start => exact orchestration_reported hv
  | next hfollows step ih =>
    exact (Step.of_step step).reported ih (hfollows.course orchestration_collector.1)
      (registered_course _ _)

/-- Only a valid composition is reported on. -/
theorem Follows.valid_of_report (h : Follows e (orchestration e runId canceled comp o) is c fx)
    {r : RunReport} (hr : c.phase = .finished (.ok (.report r))) :
    ∃ v, comp.validate = .ok v := by
  cases hv : comp.validate with
  | ok v => exact ⟨v, rfl⟩
  | error vs =>
    have hphase : (orchestration e runId canceled comp o).phase = _ :=
      congrArg Call.phase (orchestration_of_error (beginRun_invalid hv))
    have := h.finished hphase
    rw [hr] at this
    cases this

/-! ## A run that falls short

Two instances are wanted of a group that has its artifact. The first is handed
over and passes, the run is canceled, and the runner gives up before the second. -/

namespace Shortfall

def builder : Builder := ⟨Local.builderId, [], fun _ => .ok ()⟩

def runner : Runner := ⟨Local.runnerId, ["exec"], fun _ => .ok (), none⟩

def engine : Engine := ⟨⟨[builder], [runner]⟩, .standard, ⟨"/home"⟩⟩

def composition : Composition where
  metadata := ⟨"", ""⟩
  settings := ⟨"plan", "case", 0, "exec:bin", "local:exec", [], none, [], none⟩
  groups := [⟨"p", ⟨2, .zero⟩, .none, [], [], ⟨some "/bin/p", []⟩⟩]

def valid : ValidComposition := ⟨composition.complete [2], builder.id, some runner.id, [2]⟩

/-- What the first instance prints: that it has passed. -/
def output : OctetStream :=
  .ofText "\x7b\"event\":\x7b\"type\":\"finish\",\"outcome\":\"ok\"\x7d\x7d"

def silence : OctetStream := ⟨[], .closed⟩

def canceledBy : List CallInput :=
  [.proceed, .collect (.manage "p[000]" output silence), .collect (.read 0 .output),
    .collect (.read 0 .output), .collect (.read 0 .errors), .cancel]

def inputs : List CallInput := canceledBy ++ [.returned (.error .canceled), .proceed]

/-- The collector while the instance runs, when it has said that it passed, when its
output is done, and at last. -/
def managed : Collector := Collector.empty.manage "p[000]" output silence

def heard : Collector where
  count := 1
  failed := 0
  verdicts := [("p[000]", .running)]
  log := #[⟨0, "p[000]", none, .ok, ""⟩]
  consumers := [⟨0, "p[000]", .errors, .running, silence⟩, ⟨0, "p[000]", .output, .passed, silence⟩]

def settled : Collector where
  count := 1
  failed := 0
  verdicts := [("p[000]", .passed)]
  log := #[⟨0, "p[000]", none, .ok, ""⟩]
  consumers := [⟨0, "p[000]", .errors, .running, silence⟩]

def done : Collector := { settled with consumers := [] }

theorem hears : managed.act false (.read 0 .output) = some (heard, []) := by decide +kernel

theorem settles : heard.act false (.read 0 .output) = some (settled, [("p[000]", .passed)]) := by
  decide +kernel

theorem finishes : settled.act false (.read 0 .errors) = some (done, []) := by decide +kernel

/-- The run that is wanted of the runner. -/
def progress : RunProgress := ⟨⟨valid, runner, .standard⟩, [], none⟩

/-- The report: a success with one of the two instances. -/
def report : RunReport :=
  ⟨"run", .success, [("p[000]", .passed)], #[⟨0, "p[000]", none, .ok, ""⟩], [], none⟩

/-- The call with a collector in a phase. -/
def call (canceled : Bool) (k : Collector) (phase : CallPhase) : Call :=
  ⟨"run", canceled, false, k, phase⟩

def first : Call := orchestration engine "run" false composition ⟨none, none, false⟩

/-- A step of the collector is one of the call. -/
theorem step_collect {k k' : Collector} {said : List Collector.Announcement} {p : RunProgress}
    {a : Collector.Action} (h : k.act false a = some (k', said)) :
    (call false k (.running p)).step engine .empty (.collect a) =
      some (.empty, call false k' (.running p),
        said.map fun x => .event (.instanceVerdict x.1 x.2)) := by
  have hmay : (call false k (.running p)).mayCollect a = true := by cases a <;> rfl
  simp only [step, collect, hmay, if_true]
  rw [show (call false k (.running p)).collector.act
    (call false k (.running p)).canceled a = _ from h]
  rfl

/-- The way of the call. The runner is asked once, for two instances. -/
theorem follows : ∃ fx, Follows engine first inputs
    (call true done (.finished (.ok (.report report)))) fx ∧
      ∀ s input, .run s input ∈ fx → input.total = 2 := by
  have h₁ : Follows engine first [.proceed] (call false .empty (.running progress))
      [.event (.runStarted "run" "plan" "case" runner.id 2),
        .run runner.id
          ⟨"run", "plan", "case", 2, [⟨"p", 2, "/bin/p", [], .object []⟩], .object []⟩] :=
    .next (l := .empty) .start rfl
  have h₂ := h₁.next (l := .empty) (step_collect (a := .manage "p[000]" output silence) rfl)
  have h₃ := h₂.next (step_collect hears)
  have h₄ := h₃.next (step_collect settles)
  have h₅ := h₄.next (step_collect finishes)
  have h₆ : Follows engine first canceledBy (call true done (.running progress)) _ :=
    h₅.next (l := .empty) (i := .cancel) rfl
  have h₇ : Follows engine first _ (call true done (.collecting progress)) _ :=
    h₆.next (l := .empty) (i := .returned (.error .canceled)) rfl
  have h₈ : Follows engine first inputs (call true done (.finished (.ok (.report report)))) _ :=
    h₇.next (l := .empty) (i := .proceed) rfl
  refine ⟨_, h₈, ?_⟩
  simp

/-- The runner keeps its promises: the run was canceled before it gave up. -/
theorem keeps : RunnerKeeps 2 false inputs where
  distinct := by decide +kernel
  complete := by simp [inputs, canceledBy]
  bounded := fun _ => by decide +kernel
  canceled := by
    intro before after h
    right
    rcases List.append_eq_append_iff.1 h with ⟨tail, rfl, -⟩ | ⟨tail, heq, hrest⟩
    · exact List.mem_append_left tail (by simp [canceledBy])
    · -- the runner returns only behind the cancellation
      cases tail with
      | nil =>
        rw [List.append_nil] at heq
        rw [← heq]
        simp [canceledBy]
      | cons i tail =>
        obtain ⟨rfl, -⟩ := List.cons.inj hrest
        have hmem : .returned (.error .canceled) ∈ canceledBy := by simp [heq]
        simp [canceledBy] at hmem

end Shortfall

/-! ## Success -/

/-- **What a success leaves open.** The report of a run has one entry for each
instance that the runner handed over, and in a success all of them passed. If the
runner keeps its promises, a success falls short of the total exactly where the
runner returned because the run was canceled, behind some of the instances but
not all, and those had passed. -/
theorem Follows.success_incomplete_iff
    (h : Follows e (orchestration e runId canceled comp o) is c fx) {r : RunReport}
    (hr : c.phase = .finished (.ok (.report r)))
    (keeps : ∀ s input, .run s input ∈ fx → RunnerKeeps input.total canceled is) :
    ∃ v, comp.validate = .ok v ∧ r.instances.keys.Perm (handed is) ∧
      (r.outcome = .success → ∀ x ∈ r.instances, x.2 = .passed) ∧
      (r.outcome = .success ∧ r.instances.length ≠ v.total ↔
        .returned (.error .canceled) ∈ is ∧ 0 < (handed is).length ∧
          (handed is).length < v.total ∧ ∀ x ∈ r.instances, x.2 = .passed) := by
  obtain ⟨v, hv⟩ := h.valid_of_report hr
  have hreported : Reported v is fx c := h.reported hv
  unfold Reported at hreported
  rw [hr] at hreported
  obtain ⟨⟨s, input, hrun, htotal⟩, es, k, cut, hes, hids, hdone, hout, hbooks, hret⟩ := hreported
  have promise := keeps s input hrun
  rw [htotal] at promise
  have distinct : (Collector.registered es).Nodup := hids ▸ promise.distinct
  have books : Collector.Balanced (Collector.registered es) cut k := hes.balanced distinct
  have hperm : r.instances.keys.Perm (handed is) := by
    rw [hbooks, ← hids]
    exact books.keys_perm distinct
  have hlen : r.instances.length = (handed is).length := by
    rw [← hperm.length_eq, Table.keys, List.length_map]
  have hpassed : r.outcome = .success → ∀ x ∈ r.instances, x.2 = .passed := by
    rw [hout, hbooks]
    exact books.passed_of_success hdone
  refine ⟨v, hv, hperm, hpassed, ?_, ?_⟩
  · rintro ⟨hsuccess, hshort⟩
    rcases hret with ⟨out, hok⟩ | ⟨hgave, hcut⟩
    · exact absurd (hlen.trans (promise.complete out hok)) hshort
    · -- a cancellation that found no instance would have been the outcome
      have hsome : 0 < (handed is).length := by
        refine Nat.pos_of_ne_zero fun hzero => ?_
        rw [hout, Collector.outcome_eq_success_iff] at hsuccess
        refine hsuccess.1 ⟨hcut, .inl ?_⟩
        rw [← hbooks, ← List.length_eq_zero_iff, hlen, hzero]
      have := promise.bounded hgave
      exact ⟨hgave, hsome, by omega, hpassed hsuccess⟩
  · -- with instances that all passed there is nothing to see of the cancellation
    rintro ⟨-, hsome, hshort, hall⟩
    refine ⟨?_, by omega⟩
    rw [hbooks] at hall
    rw [hout, Collector.outcome_eq_success_iff]
    refine ⟨?_, ?_⟩
    · rintro ⟨-, hnone | ⟨x, hx, hv⟩⟩
      · rw [← hlen, hbooks, hnone] at hsome
        cases hsome
      · rw [hall x hx] at hv
        cases hv
    · rw [books.failed, Collector.failures, List.countP_eq_zero]
      intro x hx
      simp [hall x hx, Verdict.isFailure]

/-- One of two instances is a success. -/
theorem success_incomplete_of_shortfall :
    ∃ fx, Follows Shortfall.engine Shortfall.first Shortfall.inputs
        (Shortfall.call true Shortfall.done (.finished (.ok (.report Shortfall.report)))) fx ∧
      (∀ s input, .run s input ∈ fx → RunnerKeeps input.total false Shortfall.inputs) ∧
      ∃ v, Shortfall.composition.validate = .ok v ∧
        Shortfall.report.outcome = .success ∧ Shortfall.report.instances.length ≠ v.total := by
  obtain ⟨fx, hfollows, hasked⟩ := Shortfall.follows
  have keeps : ∀ s input, .run s input ∈ fx → RunnerKeeps input.total false Shortfall.inputs := by
    intro s input hrun
    rw [hasked s input hrun]
    exact Shortfall.keeps
  obtain ⟨v, hv, -, -, hiff⟩ := hfollows.success_incomplete_iff rfl keeps
  obtain rfl : Shortfall.valid = v := Except.ok.inj hv
  refine ⟨fx, hfollows, keeps, _, hv, hiff.2 ⟨?_, ?_, ?_, ?_⟩⟩
  · simp [Shortfall.inputs]
  · decide +kernel
  · decide +kernel
  · decide +kernel

/-- So a success is not always complete. -/
theorem not_success_complete :
    ¬ ∀ (e : Engine) (runId : String) (canceled : Bool) (comp : Composition) (o : CallOptions)
      (v : ValidComposition) (is : List CallInput) (c : Call) (fx : List Effect) (r : RunReport),
      comp.validate = .ok v → Follows e (orchestration e runId canceled comp o) is c fx →
        c.phase = .finished (.ok (.report r)) →
        (∀ s input, .run s input ∈ fx → RunnerKeeps input.total canceled is) →
        r.outcome = .success → r.instances.length = v.total ∧ ∀ x ∈ r.instances, x.2 = .passed := by
  intro h
  obtain ⟨fx, hfollows, hasked⟩ := Shortfall.follows
  have hlen := (h _ _ _ _ _ Shortfall.valid _ _ _ _ rfl hfollows rfl (fun s input hrun => by
    rw [hasked s input hrun]
    exact Shortfall.keeps) rfl).1
  exact absurd hlen (by decide +kernel)

end Call

end Conductor
