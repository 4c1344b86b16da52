import Conductor.Proofs.Engine.Completeness
import Conductor.Proofs.Engine.Lifecycle
/-!
# Engine — failures in reports and in the counter

A run that ends adds to the counter what its outcome says of failures, and its report lists
the verdicts. The two agree unless the outcome says that the run was canceled: it then says
nothing of failures, so those of the instances that were not cut short are in the report and
not in the counter. That is all that is missing there (`Session.Follows.failures_counted`).
-/

namespace Conductor

/-- The outcome of a run that was not canceled counts its failures. -/
theorem Collector.failedOf_outcome {c : Collector} {canceled : Bool}
    (h : c.outcome canceled ≠ .canceled) : Call.failedOf (c.outcome canceled) = c.failed := by
  unfold outcome at h ⊢
  split
  · rename_i hcut
    exact absurd (if_pos hcut) h
  · split
    · rfl
    · rename_i hnone
      exact (Nat.eq_zero_of_not_pos hnone).symm

namespace RunReport

/-- The number of verdicts in a report that count as failures. -/
def failures (r : RunReport) : Nat := Collector.failures r.instances

/-- The outcome counts the failures of the report, unless the run was canceled. -/
def Tallies (r : RunReport) : Prop :=
  r.outcome ≠ .canceled → Call.failedOf r.outcome = r.failures

/-- What the outcomes count, and what canceled runs list, are all failures. -/
theorem sum_failures {rs : List RunReport} (h : ∀ r ∈ rs, r.Tallies) :
    (rs.map fun r => Call.failedOf r.outcome).sum +
      ((rs.filter fun r => r.outcome = .canceled).map failures).sum = (rs.map failures).sum := by
  induction rs with
  | nil => rfl
  | cons r rs ih =>
    obtain ⟨hr, hrs⟩ := List.forall_mem_cons.1 h
    have hrest := ih hrs
    by_cases hcut : r.outcome = .canceled
    · have hzero : Call.failedOf r.outcome = 0 := by rw [hcut]; rfl
      rw [List.filter_cons_of_pos (by simpa using hcut)]
      simp only [List.map_cons, List.sum_cons]
      omega
    · have htallied : Call.failedOf r.outcome = r.failures := hr hcut
      rw [List.filter_cons_of_neg (by simpa using hcut)]
      simp only [List.map_cons, List.sum_cons]
      omega

end RunReport

namespace Call

variable {e : Engine} {l l' : Ledger} {c c' : Call} {j : CallInput} {fx : List Effect}
  {p : CallPhase} {ms : List LifecycleEvent} {r : RunReport}

/-- The report that a call has returned. -/
def report? (c : Call) : Option RunReport :=
  match c.phase with
  | .finished (.ok (.report r)) => some r
  | _ => none

theorem report?_eq_some_iff : c.report? = some r ↔ c.phase = .finished (.ok (.report r)) := by
  unfold report?
  constructor
  · intro h
    split at h
    · rename_i hphase
      exact hphase.trans (congrArg _ (congrArg _ (congrArg _ (Option.some.inj h))))
    · cases h
  · intro h
    rw [h]

/-- What the report of a call counts: nothing as long as there is none. -/
def counted (c : Call) : Nat := (c.report?.map fun r => failedOf r.outcome).getD 0

/-! ## The step that reports -/

/-- No other step counts a run. -/
theorem Marks.sameRuns (h : Marks l c l' p ms) (hp : ∀ r, p ≠ .finished (.ok (.report r))) :
    l.SameRuns l' := by
  cases h with
  | stays hsame => exact hsame
  | settles => exact .refl l
  | builds _ hsame => exact hsame
  | departs => exact .refl l
  | answers => exact .refl l
  | collects => exact .refl l
  | aborts => exact .refl l
  | reports => exact absurd rfl (hp _)

/-- **A report is that of the collector**, when the call finds that it has nothing left to do,
and the failures of its outcome are counted. -/
structure Reports (l : Ledger) (c : Call) (l' : Ledger) (r : RunReport) : Prop where
  outcome : r.outcome = c.collector.outcome c.canceled
  instances : r.instances = c.collector.verdicts
  ledger : l' = l.countRun (failedOf r.outcome)

/-- A call comes to a report in this way only. -/
theorem Step.reports (h : Step e l c j l' c' fx) (hnone : c.report? = none)
    (hr : c'.report? = some r) : Reports l c l' r := by
  have hstill : c.phase ≠ .finished (.ok (.report r)) := fun hphase => by
    rw [report?_eq_some_iff.2 hphase] at hnone
    cases hnone
  rw [report?_eq_some_iff] at hr
  cases h with
  | cancel => exact absurd hr hstill
  | hangUp => exact absurd hr hstill
  | collect => exact absurd hr hstill
  | build => cases hr
  | finish => cases hr
  | join => cases hr
  | @conclude o s =>
    cases o with
    | some o => exact absurd hr ((departure_concludeBuilds o s).ne_report r)
    | none =>
      obtain ⟨result, hresult, hne⟩ := concludeBuilds_none (e := e) (c := c) s
      rw [hresult] at hr
      cases hr
      exact absurd rfl (hne r)
  | @pass o builds result => exact absurd hr ((departure_passGate o builds result).ne_report r)
  | healthy => cases hr
  | unhealthy => cases hr
  | @returned p result =>
    cases result with
    | ok out => cases hr
    | error error => cases error <;> cases hr
  | report =>
    cases hr
    exact ⟨rfl, rfl, rfl⟩

/-- **What a step does for reports**: it leaves them and the counter alone, or reports. -/
theorem Step.report_cases (h : Step e l c j l' c' fx) :
    (c'.report? = c.report? ∧ l.SameRuns l') ∨
      ∃ r, c.report? = none ∧ c'.report? = some r ∧ Reports l c l' r := by
  cases hold : c.report? with
  | some r =>
    obtain ⟨hphase, rfl⟩ := h.finished (report?_eq_some_iff.1 hold)
    exact .inl ⟨report?_eq_some_iff.2 hphase, .refl _⟩
  | none =>
    cases hnew : c'.report? with
    | some r => exact .inr ⟨r, rfl, rfl, h.reports hold hnew⟩
    | none =>
      refine .inl ⟨rfl, (Marks.of_step h).1.sameRuns fun r hphase => ?_⟩
      rw [report?_eq_some_iff.2 hphase] at hnew
      cases hnew

/-- **The step lemma** for the counter: what is added to it, the report counts. -/
theorem Step.counted (h : Step e l c j l' c' fx) :
    l'.metrics.instancesFailed + c.counted = l.metrics.instancesFailed + c'.counted := by
  rcases h.report_cases with ⟨hsame, hruns⟩ | ⟨r, hnone, hr, hreports⟩
  · rw [hruns.failed, Call.counted, Call.counted, hsame]
  · have hledger : l'.metrics.instancesFailed =
        l.metrics.instancesFailed + failedOf r.outcome := by
      rw [hreports.ledger]
      rfl
    rw [Call.counted, Call.counted, hnone, hr, hledger]
    rfl

/-- A call begins without a report. -/
theorem report?_start (e : Engine) (runId : String) (canceled : Bool) (request : Request) :
    (start e runId canceled request).1.report? = none := by
  refine Option.eq_none_iff_forall_ne_some.2 fun r hr => ?_
  exact start_ne_report e runId canceled request r (report?_eq_some_iff.1 hr)

/-- A report tallies, where no two instances have one id. -/
theorem Reports.tallies {ids : List String} (h : Reports l c l' r) (hvoiced : Voiced c ids fx)
    (distinct : ids.Nodup) : r.Tallies := by
  intro hcut
  obtain ⟨es, hes, hids⟩ := hvoiced.books
  have hbalanced := hes.balanced (by rw [hids]; exact distinct)
  rw [h.outcome] at hcut ⊢
  rw [Collector.failedOf_outcome hcut, hbalanced.failed, RunReport.failures, h.instances]

end Call

namespace Session

open Call (handed)

variable {e : Engine} {s t : Session} {i : Input} {is : List Input} {deeds more : List Deed}
  {k : Nat} {c : Call} {r : RunReport}

/-- The reports that have been returned, in the order of their calls. -/
def reports (s : Session) : List RunReport := s.calls.filterMap Call.report?

theorem sum_counted (s : Session) :
    (s.calls.map Call.counted).sum = (s.reports.map fun r => Call.failedOf r.outcome).sum := by
  rw [reports]
  induction s.calls with
  | nil => rfl
  | cons c cs ih =>
    rw [List.map_cons, List.sum_cons, ih, Call.counted]
    cases hc : c.report? with
    | none => simp [hc]
    | some r => simp [hc]

/-- **The counter is what the outcomes count**, at every point. -/
theorem Follows.instancesFailed_eq (h : Follows e is s deeds) :
    s.ledger.metrics.instancesFailed = (s.reports.map fun r => Call.failedOf r.outcome).sum := by
  rw [← sum_counted]
  induction h with
  | start => rfl
  | @next is s t deeds more i follows step ih =>
    cases (Move.of_step step).1 with
    | begins runId canceled request hledger hcalls =>
      have hnone : (Call.start e runId canceled request).1.counted = 0 := by
        rw [Call.counted, Call.report?_start]
        rfl
      rw [hledger, hcalls, List.map_append, List.sum_append, List.map_singleton,
        List.sum_singleton, hnone, Nat.add_zero]
      exact ih
    | @steps _ _ k j l' c c' fx _ hc hstep _ hledger hcalls =>
      have hcounted := (Call.Step.of_step hstep).counted
      have hsum := sum_map_set (f := Call.counted) (b := c') hc
      rw [hledger, hcalls]
      omega
    | attends _ _ hledger hcalls => rw [hledger, hcalls, ih]
    | rests _ hledger hcalls => rw [hledger, hcalls, ih]

/-- **Every report tallies**, where no two instances of its call have one id. -/
theorem Follows.tallies (h : Follows e is s deeds) (hc : s.calls[k]? = some c)
    (hr : c.report? = some r) (distinct : (handed (inputsOf k is)).Nodup) : r.Tallies := by
  induction h generalizing c with
  | start => cases hc
  | @next is s t deeds more i follows step ih =>
    rw [handed_inputsOf] at distinct
    have hbefore : (handed (inputsOf k is)).Nodup := (List.nodup_append.1 distinct).1
    have hown : ∀ {c₀ : Call} {j : CallInput} {fx : List Effect}, s.calls[k]? = some c₀ →
        c₀.step e s.ledger j = some (t.ledger, c, fx) → r.Tallies := by
      intro c₀ j fx hc₀ hstep
      rcases (Call.Step.of_step hstep).report_cases with ⟨hsame, -⟩ | ⟨r', -, hr', hreports⟩
      · exact ih hc₀ (hsame ▸ hr) hbefore
      · obtain rfl : r' = r := Option.some.inj (hr'.symm.trans hr)
        exact hreports.tallies (follows.voiced hc₀) hbefore
    have hsees := Sees.of_step step hc
    generalize deedsOf k more = fx at hsees
    cases hsees with
    | begins runId canceled request =>
      rw [Call.report?_start] at hr
      cases hr
    | own hc₀ hstep => exact hown hc₀ hstep
    | told hc₀ hstep => exact hown hc₀ hstep
    | attended hc₀ => exact ih hc₀ hr hbefore
    | idle hc₀ => exact ih hc₀ hr hbefore

/-- **The counter misses the failures of canceled runs, and no others.** With them it is the
sum over all reports, at every point of a session, whatever calls there were and however
their steps fell together; so it is that sum by itself exactly if no canceled run lists a
failure. -/
theorem Follows.failures_counted (h : Follows e is s deeds)
    (distinct : ∀ k, (handed (inputsOf k is)).Nodup) :
    s.ledger.metrics.instancesFailed +
        ((s.reports.filter fun r => r.outcome = .canceled).map RunReport.failures).sum =
      (s.reports.map RunReport.failures).sum ∧
    (s.ledger.metrics.instancesFailed = (s.reports.map RunReport.failures).sum ↔
      ∀ r ∈ s.reports, r.outcome = .canceled → r.failures = 0) := by
  have htallies : ∀ r ∈ s.reports, r.Tallies := by
    intro r hr
    obtain ⟨c, hc, hreport⟩ := List.mem_filterMap.1 hr
    obtain ⟨k, hk⟩ := List.mem_iff_getElem?.1 hc
    exact h.tallies hk hreport (distinct k)
  have hsum := RunReport.sum_failures htallies
  rw [← h.instancesFailed_eq] at hsum
  refine ⟨hsum, ?_⟩
  have hzero : ((s.reports.filter fun r => r.outcome = .canceled).map RunReport.failures).sum = 0 ↔
      ∀ r ∈ s.reports, r.outcome = .canceled → r.failures = 0 := by
    rw [List.sum_eq_zero_iff, List.forall_mem_map]
    simp [List.mem_filter]
  rw [← hzero]
  omega

/-! ## A run that is cut short

Of two instances the first cannot be started, and the second says nothing until the run is
canceled. -/

namespace CutShort
open Call.Shortfall (engine composition progress call first)

def silence : OctetStream := ⟨[], .silent⟩

def begun : Input := .start "run" false (.orchestrate composition ⟨none, none, false⟩)

def inputs : List Input :=
  [begun, .call 0 .proceed, .call 0 (.collect (.failStart "p[000]" "no file")),
    .call 0 (.collect (.manage "p[001]" silence silence)), .call 0 (.returned (.ok ⟨"run", 1, 1⟩)),
    .call 0 .cancel, .call 0 (.collect (.quit 1 .errors)), .call 0 (.collect (.quit 1 .output)),
    .call 0 .proceed]

def failed : Collector := (Collector.empty.failStart "p[000]" "no file").1

def started : Collector := failed.manage "p[001]" silence silence

def halved : Collector :=
  { started with consumers := [⟨1, "p[001]", .output, .running, silence⟩] }

def done : Collector :=
  { halved with verdicts := [("p[000]", .incomplete), ("p[001]", .canceled)], consumers := [] }

/-- The report lists a failure. -/
def report : RunReport := ⟨"run", .canceled, done.verdicts, done.log, [], none⟩

/-- The session with its call in a phase. -/
def session (l : Ledger) (canceled : Bool) (k : Collector) (phase : CallPhase) : Session :=
  ⟨l, [], [call canceled k phase]⟩

theorem follows : ∃ deeds, Follows engine inputs
    (session (Ledger.empty.countRun 0) true done (.finished (.ok (.report report)))) deeds := by
  have h₀ : Follows engine [begun] ⟨.empty, [], [first]⟩ [] := .next .start rfl
  have h₁ : Follows engine _ (session .empty false .empty (.running progress)) _ :=
    h₀.next (i := .call 0 .proceed) rfl
  have h₂ : Follows engine _ (session .empty false failed (.running progress)) _ :=
    h₁.next (i := .call 0 (.collect (.failStart "p[000]" "no file"))) rfl
  have h₃ : Follows engine _ (session .empty false started (.running progress)) _ :=
    h₂.next (i := .call 0 (.collect (.manage "p[001]" silence silence))) rfl
  have h₄ : Follows engine _ (session .empty false started (.collecting progress)) _ :=
    h₃.next (i := .call 0 (.returned (.ok ⟨"run", 1, 1⟩))) rfl
  have h₅ : Follows engine _ (session .empty true started (.collecting progress)) _ :=
    h₄.next (i := .call 0 .cancel) rfl
  have h₆ : Follows engine _ (session .empty true halved (.collecting progress)) _ :=
    h₅.next (i := .call 0 (.collect (.quit 1 .errors))) rfl
  have h₇ : Follows engine _ (session .empty true done (.collecting progress)) _ :=
    h₆.next (i := .call 0 (.collect (.quit 1 .output))) rfl
  exact ⟨_, h₇.next (i := .call 0 .proceed) rfl⟩

/-- The instances of the call have distinct ids. -/
theorem distinct (k : Nat) : (handed (inputsOf k inputs)).Nodup := by
  cases k with
  | zero =>
    have hids : handed (inputsOf 0 inputs) = ["p[000]", "p[001]"] := rfl
    rw [hids]
    decide
  | succ k =>
    have hids : handed (inputsOf (k + 1) inputs) = [] := rfl
    rw [hids]
    exact List.nodup_nil

end CutShort

/-- What the counter misses is the failure of the canceled run. -/
theorem failures_counted_of_cutShort : ∃ s deeds,
    Follows Call.Shortfall.engine CutShort.inputs s deeds ∧
      (∀ k, (handed (inputsOf k CutShort.inputs)).Nodup) ∧
        s.ledger.metrics.instancesFailed = 0 ∧ (s.reports.map RunReport.failures).sum = 1 := by
  obtain ⟨deeds, hfollows⟩ := CutShort.follows
  obtain ⟨hsum, -⟩ := hfollows.failures_counted CutShort.distinct
  exact ⟨_, deeds, hfollows, CutShort.distinct, rfl, hsum.symm⟩

/-- So the counter is not the sum over all reports. -/
theorem not_failures_counted :
    ¬ ∀ (e : Engine) (is : List Input) (s : Session) (deeds : List Deed), Follows e is s deeds →
      (∀ k, (handed (inputsOf k is)).Nodup) →
        s.ledger.metrics.instancesFailed = (s.reports.map RunReport.failures).sum := by
  intro hall
  obtain ⟨deeds, hfollows⟩ := CutShort.follows
  have hsum : 0 = 1 := hall _ _ _ _ hfollows CutShort.distinct
  cases hsum

end Session

end Conductor
