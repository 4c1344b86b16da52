import Conductor.Proofs.Engine.Entries
import Conductor.Proofs.Engine.Milestones
import Mathlib.Algebra.BigOperators.Group.List.Basic
/-!
# Engine — counters and events

An engine counts in other places than it reports: a build is reported by its task when it
ends, and counted by the call that joins it. What has been reported and not counted yet is
what the calls have still to join (`Session.Follows.counts`), so where no call has, the counters
are what the events add up to. The numbers of builds are given out in order, one each, and
what is reported of a build is its start and then its end, unless its task broke down
(`Session.Numbered`).
-/

namespace Conductor

namespace LifecycleEvent

/-- A build has returned an artifact. -/
def isExecuted : LifecycleEvent → Bool
  | .buildFinished _ success => success
  | _ => false

/-- A build was found in the cache. -/
def isCached : LifecycleEvent → Bool
  | .buildCached _ => true
  | _ => false

/-- The event is about the build with the number given. -/
def isOfBuild (n : Nat) : LifecycleEvent → Bool
  | .buildStarted m _ _ => m = n
  | .buildFinished m _ => m = n
  | _ => false

end LifecycleEvent

/-- What events add up to. -/
def Metrics.ofEvents (told : List LifecycleEvent) : Metrics where
  buildsExecuted := told.countP LifecycleEvent.isExecuted
  cacheHits := told.countP LifecycleEvent.isCached
  runsCompleted := (told.filterMap LifecycleEvent.failures?).length
  instancesFailed := (told.filterMap LifecycleEvent.failures?).sum

/-- **Counters from events**: with so many artifacts still to be counted before and behind
it, the counters go on by what is reported. -/
structure Counts (m m' : Metrics) (owed owed' : Nat) (told : List LifecycleEvent) : Prop where
  executed : m'.buildsExecuted + owed' =
    m.buildsExecuted + owed + (Metrics.ofEvents told).buildsExecuted
  hits : m'.cacheHits = m.cacheHits + (Metrics.ofEvents told).cacheHits
  completed : m'.runsCompleted = m.runsCompleted + (Metrics.ofEvents told).runsCompleted
  failed : m'.instancesFailed = m.instancesFailed + (Metrics.ofEvents told).instancesFailed

/-- The unit has an artifact that is reported and not counted. -/
def UnitProgress.uncounted : UnitProgress → Nat
  | .ended _ how => if how.isSuccess then 1 else 0
  | _ => 0

/-- The units that have an artifact which is reported and not counted. -/
def BuildStage.uncounted (s : BuildStage) : Nat :=
  (s.slots.map fun slot => slot.progress.uncounted).sum

namespace Counts

variable {m m' m'' : Metrics} {owed owed' owed'' : Nat} {told more : List LifecycleEvent}

/-- Steps follow each other. -/
theorem trans (h : Counts m m' owed owed' told) (h' : Counts m' m'' owed' owed'' more) :
    Counts m m'' owed owed'' (told ++ more) := by
  obtain ⟨h₁, h₂, h₃, h₄⟩ := h
  obtain ⟨h₁', h₂', h₃', h₄'⟩ := h'
  simp only [Metrics.ofEvents] at *
  constructor <;>
    simp only [Metrics.ofEvents, List.countP_append, List.filterMap_append, List.length_append,
      List.sum_append] <;> omega

/-- What is owed elsewhere stays. -/
theorem shift (h : Counts m m' owed owed' told) {n n' : Nat} (heq : n' + owed = n + owed') :
    Counts m m' n n' told :=
  ⟨by have := h.executed; omega, h.hits, h.completed, h.failed⟩

/-- Where nothing that counts is reported, nothing is counted. -/
theorem quiet (hbuilds : (Metrics.ofEvents told).buildsExecuted = 0)
    (hhits : (Metrics.ofEvents told).cacheHits = 0)
    (hruns : told.filterMap LifecycleEvent.failures? = []) : Counts m m owed owed told :=
  ⟨by rw [hbuilds]; rfl, by rw [hhits]; rfl, by simp [Metrics.ofEvents, hruns],
    by simp [Metrics.ofEvents, hruns]⟩

end Counts

/-- One item of a list makes the difference of its old and its new value to the sum. -/
theorem sum_map_set {α : Type} {f : α → Nat} {xs : List α} {i : Nat} {a b : α}
    (h : xs[i]? = some a) : ((xs.set i b).map f).sum + f a = (xs.map f).sum + f b := by
  induction xs generalizing i with
  | nil => simp at h
  | cons x xs ih =>
    cases i with
    | zero =>
      cases h
      simp only [List.set_cons_zero, List.map_cons, List.sum_cons]
      omega
    | succ i =>
      have := ih h
      simp only [List.set_cons_succ, List.map_cons, List.sum_cons]
      omega

namespace BuildStage

variable {s : BuildStage} {i : Nat} {u : BuildUnit} {p q : UnitProgress}

/-- A unit that moves makes the difference. -/
theorem uncounted_put (h : s.slots[i]? = some ⟨u, q⟩) :
    (s.put i p).uncounted + q.uncounted = s.uncounted + p.uncounted := by
  have hset : (s.put i p).slots = s.slots.set i ⟨u, p⟩ := by
    refine List.ext_getElem? fun j => ?_
    rw [getElem?_put h, List.getElem?_set]
    split
    · rw [if_pos (List.getElem?_eq_some_iff.1 h).1]
    · rfl
  rw [uncounted, uncounted, hset]
  exact sum_map_set (f := fun slot => slot.progress.uncounted) h

/-- Where no unit has an artifact to be counted, the stage has none. -/
theorem uncounted_eq_zero (h : ∀ slot ∈ s.slots, slot.progress.uncounted = 0) :
    s.uncounted = 0 :=
  List.sum_eq_zero (by simpa using h)

theorem uncounted_of_isOver (h : s.isOver = true) : s.uncounted = 0 := by
  refine uncounted_eq_zero fun slot hslot => ?_
  have hjoined := List.all_eq_true.1 h slot hslot
  obtain ⟨u, progress⟩ := slot
  cases progress <;> first | rfl | cases hjoined

end BuildStage

namespace Call

/-- The units of a call that have an artifact which is reported and not counted. -/
def uncounted (c : Call) : Nat :=
  match c.phase with
  | .building _ s => s.uncounted
  | _ => 0

variable {e : Engine} {l l' : Ledger} {c c' : Call} {j : CallInput} {fx : List Effect}

theorem uncounted_of_over (h : c.BuildsOver) : c.uncounted = 0 := by
  unfold uncounted
  split
  · rename_i hphase
    rw [BuildsOver, hphase] at h
    cases h
  · rfl

/-- Where nothing is said of builds, nothing is added up of them. -/
theorem NoBuildSaid.silent (h : NoBuildSaid fx) {x : LifecycleEvent} (hx : x ∈ events fx) :
    x.isExecuted = false ∧ x.isCached = false ∧ ∀ n, x.isOfBuild n = false := by
  obtain ⟨y, hy, hxy⟩ := List.mem_filterMap.1 hx
  cases y <;> cases hxy
  have hsaid := h _ hy
  cases x <;> first | exact ⟨rfl, rfl, fun _ => rfl⟩ | cases hsaid

theorem NoBuildSaid.countP_eq_zero (h : NoBuildSaid fx) :
    (events fx).countP LifecycleEvent.isExecuted = 0 ∧
      (events fx).countP LifecycleEvent.isCached = 0 :=
  ⟨List.countP_eq_zero.2 fun _ hx => by simp [(h.silent hx).1],
    List.countP_eq_zero.2 fun _ hx => by simp [(h.silent hx).2.1]⟩

/-- What a step reports of builds is counted, or is still to be counted. -/
theorem StageStep.executed (h : StageStep l c j l' c' fx) :
    l'.metrics.buildsExecuted + c'.uncounted =
      l.metrics.buildsExecuted + c.uncounted + (events fx).countP LifecycleEvent.isExecuted := by
  have hstage : ∀ {o s}, c.phase = .building o s → c.uncounted = s.uncounted := by
    intro o s hphase
    rw [uncounted, hphase]
  cases h with
  | @proceed o s s' l' fx hphase hs =>
    rw [hstage hphase]
    change _ + s'.uncounted = _
    rcases BuildStage.proceed_cases hs with ⟨i, u, hit, hslot, -, rfl, rfl, rfl⟩ |
      ⟨i, u, hslot, -, rfl, rfl, rfl⟩ | ⟨i, u, hslot, rfl, rfl, rfl⟩
    · exact congrArg (_ + ·) (BuildStage.uncounted_put hslot)
    · exact congrArg (_ + ·) (BuildStage.uncounted_put hslot)
    · exact congrArg (_ + ·) (BuildStage.uncounted_put hslot)
  | @finish o s s' unit how fx hphase hs =>
    obtain ⟨u, n, hslot, rfl, rfl⟩ := BuildStage.finish_reports hs
    rw [hstage hphase, events_map]
    change _ + (s.put unit (.ended n how)).uncounted = _
    have hput : (s.put unit (.ended n how)).uncounted = s.uncounted + _ :=
      BuildStage.uncounted_put hslot
    have hreports : (how.reports n).countP LifecycleEvent.isExecuted =
        (UnitProgress.ended n how).uncounted := by
      cases how with
      | returned result => cases result <;> rfl
      | broke message => rfl
    omega
  | @join o s s' unit l' hphase hs =>
    rw [hstage hphase]
    change _ + s'.uncounted = _
    obtain ⟨-, u, n, how, hslot, ⟨out, rfl, rfl, rfl⟩ | ⟨failure, hbad, rfl, rfl⟩⟩ :=
      BuildStage.join_cases hs
    · have hput : (s.put unit (.joined (some (s.resultOf u out)))).uncounted + 1 = s.uncounted :=
        BuildStage.uncounted_put hslot
      change l.metrics.buildsExecuted + 1 + _ = _
      rw [← hput, events, List.filterMap_nil, List.countP_nil]
      omega
    · have hput := BuildStage.uncounted_put (p := .joined none) hslot
      have hfailed : (UnitProgress.ended n how).uncounted = 0 := by
        cases how with
        | returned result =>
          cases result with
          | ok out => exact absurd rfl (hbad out)
          | error x => rfl
        | broke message => rfl
      rw [hfailed] at hput
      exact congrArg (_ + ·) hput
  | stays _ hphase hsaid =>
    rw [hsaid.countP_eq_zero.1, uncounted, uncounted, hphase]
    rfl
  | passes _ hover hover' hsame hsaid =>
    have hc : c.uncounted = 0 := by
      unfold uncounted
      split
      · rename_i hphase
        exact BuildStage.uncounted_of_isOver (hover _ _ hphase)
      · rfl
    rw [hsaid.countP_eq_zero.1, hc, uncounted_of_over hover']
    exact hsame.executed

/-- What it reports to be found in the cache is counted. -/
theorem StageStep.hits (h : StageStep l c j l' c' fx) :
    l'.metrics.cacheHits = l.metrics.cacheHits + (events fx).countP LifecycleEvent.isCached := by
  cases h with
  | proceed _ hs =>
    rcases BuildStage.proceed_cases hs with ⟨i, u, hit, -, -, -, rfl, rfl⟩ |
      ⟨i, u, -, -, -, rfl, rfl⟩ | ⟨i, u, -, -, rfl, rfl⟩
    · rfl
    · rfl
    · rfl
  | @finish o s s' unit how fx _ hs =>
    obtain ⟨u, n, -, -, rfl⟩ := BuildStage.finish_reports hs
    rw [events_map]
    cases how <;> rfl
  | join _ hs =>
    obtain ⟨-, u, n, how, -, ⟨out, -, -, rfl⟩ | ⟨failure, -, rfl, -⟩⟩ := BuildStage.join_cases hs
    · rfl
    · rfl
  | stays _ _ hsaid => exact hsaid.countP_eq_zero.2 ▸ rfl
  | passes _ _ _ hsame hsaid =>
    rw [hsaid.countP_eq_zero.2]
    exact hsame.hits

/-- **The step lemma**: what a step reports is counted, or is still to be counted. -/
theorem counts_step (h : c.step e l j = some (l', c', fx)) :
    Counts l.metrics l'.metrics c.uncounted c'.uncounted (events fx) := by
  obtain ⟨hcompleted, hfailed⟩ := (Marks.of_step (.of_step h)).1.counts
  rw [← endedRuns_eq] at hcompleted hfailed
  exact ⟨(StageStep.of_step h).executed, (StageStep.of_step h).hits, hcompleted, hfailed⟩

/-- A call begins with nothing to count. -/
theorem start_counts (e : Engine) (runId : String) (canceled : Bool) (r : Request) :
    (start e runId canceled r).1.uncounted = 0 ∧ NoBuildSaid (start e runId canceled r).2 ∧
      endedRuns (start e runId canceled r).2 = [] := by
  have hends : endedRuns (start e runId canceled r).2 = [] := by
    cases r with
    | orchestrate comp o => simp only [start]; split <;> rfl
    | build comp o => simp only [start]; split <;> rfl
    | checkHealth runner fix =>
      simp only [start, beginCheck]
      split
      · rfl
      · split <;> rfl
  rcases start_cases e runId canceled r with ⟨o, s, hphase, hfx, -, hnew⟩ | ⟨hover, hsaid⟩
  · refine ⟨?_, by rw [hfx]; exact noBuildSaid_nil, hends⟩
    rw [uncounted, hphase]
    exact BuildStage.uncounted_eq_zero fun slot hslot => by rw [hnew slot hslot]; rfl
  · exact ⟨uncounted_of_over hover, hsaid, hends⟩

end Call

namespace Session

open Call (NoBuildSaid events endedRuns)

/-- All that is reported in a session. -/
def told (deeds : List Deed) : List LifecycleEvent := events (deeds.map Deed.effect)

/-- The artifacts that are reported and not counted. -/
def uncounted (s : Session) : Nat := (s.calls.map Call.uncounted).sum

variable {e : Engine} {s t : Session} {i : Input} {is : List Input} {deeds more : List Deed}
  {k : Nat} {c : Call} {fx : List Effect}

@[simp] theorem told_append : told (deeds ++ more) = told deeds ++ told more := by
  simp [told]

@[simp] theorem told_map (fx : List Effect) : told (fx.map (⟨k, ·⟩)) = events fx := by
  simp [told, Function.comp_def]

/-- **The step lemma.** -/
theorem counts_step (h : s.step e i = some (t, more)) :
    Counts s.ledger.metrics t.ledger.metrics s.uncounted t.uncounted (told more) := by
  cases (Move.of_step h).1 with
  | begins runId canceled r hledger hcalls =>
    obtain ⟨huncounted, hsaid, hends⟩ := Call.start_counts e runId canceled r
    have hsum : t.uncounted = s.uncounted := by
      rw [uncounted, hcalls, List.map_append, List.sum_append, ← uncounted]
      simp [huncounted]
    rw [hledger, hsum, told_map]
    exact .quiet hsaid.countP_eq_zero.1 hsaid.countP_eq_zero.2 hends
  | steps _ hc hstep _ hledger hcalls =>
    rw [hledger, told_map]
    refine (Call.counts_step hstep).shift ?_
    rw [uncounted, hcalls]
    exact sum_map_set hc
  | attends _ _ hledger hcalls =>
    rw [hledger, uncounted, uncounted, hcalls]
    exact .quiet rfl rfl rfl
  | rests _ hledger hcalls =>
    rw [hledger, uncounted, uncounted, hcalls]
    exact .quiet rfl rfl rfl

/-- **At every point of a session the counters are what the events add up to**, but for the
artifacts that are still to be counted. -/
theorem Follows.counts (h : Follows e is s deeds) :
    Counts .zero s.ledger.metrics 0 s.uncounted (told deeds) := by
  induction h with
  | start => exact .quiet rfl rfl rfl
  | next _ step ih =>
    rw [told_append]
    exact ih.trans (counts_step step)

end Session

end Conductor
