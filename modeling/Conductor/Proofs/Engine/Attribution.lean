import Conductor.Proofs.Engine.Blame
/-!
# Engine — a failed build and its cause

What a call says of a build that has failed. Builds that are canceled because another has
failed are not to blame for it: as long as a builder returns a cancellation only where there
was one (`Call.Fairly`), the error of the call is the failure that was joined first, with the
groups of its unit. It is so in whatever order the builds end and are joined, and the call
waits for all of them (`Call.Fairly.failure_attributed`).
-/

namespace Conductor

namespace Call

open BuildStage (Told Watched BuildStep asked)

/-- A call on its way, whose tasks end as they may. -/
inductive Fairly (e : Engine) (c₀ : Call) : List CallInput → Call → List Effect → Prop
  | start : Fairly e c₀ [] c₀ []
  | next {is : List CallInput} {c c' : Call} {fx fx' : List Effect} {j : CallInput}
    {l l' : Ledger} : Fairly e c₀ is c fx → j.IsFair c → c.step e l j = some (l', c', fx') →
      Fairly e c₀ (is ++ [j]) c' (fx ++ fx')

variable {e : Engine} {c c' c₀ : Call} {is : List CallInput} {j : CallInput} {fx : List Effect}
  {o o' : Option RunOrder} {s s₀ : BuildStage} {l l' : Ledger}

/-- **The run lemma**: a stage is watched as long as the builds go on. -/
theorem Fairly.watched (h : Fairly e c₀ is c fx) (hphase₀ : c₀.phase = .building o s₀)
    (hnew : ∀ slot ∈ s₀.slots, slot.progress = .planned) (hfailure : s₀.failure = none)
    (hclean : s₀.canceled = false) (hphase : c.phase = .building o' s) :
    Told o' s is fx ∧ Watched s₀ is c.canceled s ∧
      (c.canceled = true ↔ c₀.canceled = true ∨ .cancel ∈ is) := by
  induction h generalizing o' s with
  | start =>
    rw [hphase₀] at hphase
    cases hphase
    refine ⟨⟨fun _ => [], fun i slot hslot => ?_, fun i hi => rfl⟩,
      ⟨rfl, fun i slot how _ _ hmem => ?_, by simp, by simp, .nobody hfailure hclean (by simp), ?_⟩,
      by simp⟩
    · rw [SlotStory, hnew slot (List.mem_of_getElem? hslot)]
      rfl
    · cases hmem
    · rw [BuildStage.stepsLeft_of_planned hnew, BuildStage.units, List.length_map]
      simp
  | @next is c c' fx fx' j l l' _ hfair hstep ih =>
    obtain ⟨s₁, hphase₁, hbuild⟩ := BuildStep.of_step hstep hphase
    obtain ⟨htold, hwatched, hcanceled⟩ := ih hphase₁
    refine ⟨?_, hwatched.step htold hphase₁ hfair hbuild, ?_⟩
    · obtain ⟨entries, hstories⟩ := htold
      rw [← hphase₁] at hstories
      have hnext := hstories.step (StageStep.of_step hstep)
      rw [hphase] at hnext
      refine ⟨fun k => entries k ++ (c.chapter j fx' k).entries, ?_⟩
      simp only [BuildStage.asked_append, endsIn_append]
      exact hnext
    · rw [hbuild.canceled_iff, hcanceled, List.mem_append, List.mem_singleton, or_assoc]
      exact or_congr_right (or_congr_right eq_comm)

/-- The end of the builds does not cancel the run. -/
theorem concludeBuilds_canceled (c : Call) (o : Option RunOrder) (s : BuildStage) :
    (c.concludeBuilds e o s).1.canceled = c.canceled := by
  have hstart : ∀ p, (c.startRun e p).1.canceled = c.canceled := by
    intro p
    unfold startRun
    split
    · rfl
    · split
      · rfl
      · rfl
  unfold concludeBuilds
  split
  · rfl
  · rfl
  · unfold gate
    split
    · rfl
    · exact hstart _
  · rfl

/-- The error of the builds is that of the call. -/
theorem concludeBuilds_error {error : OrchestrationError}
    (h : s.outcome c.canceled = .error error) :
    (c.concludeBuilds e o s).1.phase = .finished (.error error) := by
  unfold concludeBuilds
  rw [h]
  cases o with
  | none => rfl
  | some o => rfl

/-- While the builds go on one of them can end well, or be joined, or the stage takes a step
of its own. -/
theorem exists_buildStep (hphase : c.phase = .building o s) (hopen : s.isOver = false)
    (l : Ledger) : ∃ j : CallInput, j.IsFair c ∧ j.isBuildStep = true ∧
      (c.step e l j).isSome = true := by
  cases hproceed : s.proceed l with
  | some r => exact ⟨.proceed, trivial, rfl, by simp [step, proceed, hphase, hproceed]⟩
  | none =>
    rcases BuildStage.exists_move hproceed with ⟨i, u, n, hslot⟩ | ⟨i, u, n, how, hslot⟩ | hover
    · obtain ⟨s', fx, hs⟩ := BuildStage.exists_finish hslot (.returned (.ok ⟨"", []⟩))
      exact ⟨.finish i (.returned (.ok ⟨"", []⟩)), trivial, rfl, by simp [step, hphase, hs]⟩
    · obtain ⟨s', l', hs⟩ :=
        BuildStage.exists_join (BuildStage.isLaunched_of_proceed hproceed) hslot l
      exact ⟨.join i, trivial, rfl, by simp [step, hphase, hs]⟩
    · rw [hopen] at hover
      cases hover

/-- A call whose builds go on stays with them. -/
theorem stays_building (hphase : c.phase = .building o s) (hopen : s.isOver = false)
    (hstep : c.step e l j = some (l', c', fx)) : ∃ s', c'.phase = .building o s' := by
  have same : ∀ {o₁ s₁}, c.phase = .building o₁ s₁ → o₁ = o := by
    intro o₁ s₁ hphase₁
    rw [hphase] at hphase₁
    cases hphase₁
    rfl
  cases StageStep.of_step hstep with
  | proceed hphase₁ =>
    obtain rfl := same hphase₁
    exact ⟨_, rfl⟩
  | finish hphase₁ =>
    obtain rfl := same hphase₁
    exact ⟨_, rfl⟩
  | join hphase₁ =>
    obtain rfl := same hphase₁
    exact ⟨_, rfl⟩
  | stays _ hstays => exact ⟨s, hstays.trans hphase⟩
  | passes _ hover =>
    rw [hover o s hphase] at hopen
    cases hopen

/-- **A build failure is attributed to its cause**, whatever the units are, whatever their
tasks end with, and in whatever order they end and are joined; the ledger may be changed
by others at any time. The builds come to an end, and the call goes on from there only. Every
task that was started has ended then, and was joined. If all succeeded there are results. If
some failed, and the run is not canceled, the error is the failure that was joined first, with
the groups of its unit, and more than a cancellation; if the run is canceled the error says so.
The builds themselves do not cancel it. -/
theorem Fairly.failure_attributed (h : Fairly e c₀ is c fx) (hphase₀ : c₀.phase = .building o s₀)
    (hnew : ∀ slot ∈ s₀.slots, slot.progress = .planned) (hfailure : s₀.failure = none)
    (hclean : s₀.canceled = false) (hphase : c.phase = .building o s) :
    (c.canceled = true ↔ c₀.canceled = true ∨ .cancel ∈ is) ∧
      is.countP CallInput.isBuildStep ≤ 4 * s₀.units.length ∧
      (s.isOver = false →
        (∀ l, ∃ j : CallInput, j.IsFair c ∧ j.isBuildStep = true ∧ (c.step e l j).isSome = true) ∧
        ∀ l j l' c' fx', c.step e l j = some (l', c', fx') → ∃ s', c'.phase = .building o s') ∧
      (s.isOver = true →
        (∀ l, c.step e l .proceed = some (l, c.concludeBuilds e o s)) ∧
        (c.concludeBuilds e o s).1.canceled = c.canceled ∧
        (∀ b i input, .build b i input ∈ fx → .join i ∈ is ∧ ∃ how, .finish i how ∈ is) ∧
        Attributed s₀.units is c.canceled (s.outcome c.canceled) ∧
        ∀ error, s.outcome c.canceled = .error error →
          (c.concludeBuilds e o s).1.phase = .finished (.error error)) := by
  obtain ⟨htold, hwatched, hcanceled⟩ := h.watched hphase₀ hnew hfailure hclean hphase
  have hsteps := hwatched.steps
  refine ⟨hcanceled, by omega, fun hopen => ⟨exists_buildStep hphase hopen,
    fun l j l' c' fx' => stays_building hphase hopen⟩, fun hover => ⟨fun l => ?_,
    concludeBuilds_canceled c o s, fun b i input hask => ?_, hwatched.attributed htold hover,
    fun error => concludeBuilds_error⟩⟩
  · simp only [step, proceed, hphase, BuildStage.proceed_of_isOver hover, hover, if_true]
  · obtain ⟨how, hend⟩ := htold.ended_of_over hover hask
    exact ⟨hwatched.joined_of_over htold hover hend, how, hend⟩

end Call

/-! ## A failure beside a cancellation

Two units are built. The build of the second fails, and is joined; then that of the first is
found canceled. -/

namespace Call

namespace Provoked

open Refusal (builder engine)

def part (id : String) : BuildUnit := ⟨id, [id], [], [], [], id⟩

def stage (p q : UnitProgress) (failure : Option BuildFailure) : BuildStage :=
  ⟨builder.id, "plan", "/home/plans/plan", [⟨part "p", p⟩, ⟨part "q", q⟩], failure.isSome, failure⟩

def call (s : BuildStage) : Call := opened "run" false false (.building none s)

def cause : BuildFailure := ⟨["q"], .failed ["no"]⟩

def inputs : List CallInput :=
  [.proceed, .proceed, .proceed, .proceed, .finish 1 (.returned (.error (.failed ["no"]))),
    .join 1, .finish 0 (.returned (.error .canceled)), .join 0]

theorem fairly : ∃ fx, Fairly engine (call (stage .planned .planned none)) inputs
    (call (stage (.joined none) (.joined none) (some cause))) fx := by
  have h₁ : Fairly engine (call (stage .planned .planned none)) _
      (call (stage .missing .planned none)) _ :=
    Fairly.next (j := .proceed) (l := .empty) .start trivial rfl
  have h₂ : Fairly engine _ _ (call (stage .missing .missing none)) _ :=
    h₁.next (j := .proceed) (l := .empty) trivial rfl
  have h₃ : Fairly engine _ _ (call (stage (.building 0) .missing none)) _ :=
    h₂.next (j := .proceed) (l := .empty) trivial rfl
  have h₄ : Fairly engine _ _ (call (stage (.building 0) (.building 1) none)) _ :=
    h₃.next (j := .proceed) (l := Ledger.empty.countStart) trivial rfl
  have h₅ := h₄.next (j := .finish 1 (.returned (.error (.failed ["no"])))) (l := .empty)
    trivial rfl
  have h₆ : Fairly engine _ _ (call (stage (.building 0) (.joined none) (some cause))) _ :=
    h₅.next (j := .join 1) (l := .empty) trivial rfl
  -- by now the builds are canceled
  have h₇ := h₆.next (j := .finish 0 (.returned (.error .canceled))) (l := .empty) rfl rfl
  exact ⟨_, h₇.next (j := .join 0) (l := .empty) trivial rfl⟩

end Provoked

/-- The second unit is blamed, for what its build has failed with. -/
theorem failure_attributed_of_provoked : ∃ fx c,
    Fairly Refusal.engine (Provoked.call (Provoked.stage .planned .planned none))
        Provoked.inputs c fx ∧
      (c.concludeBuilds Refusal.engine none
        (Provoked.stage (.joined none) (.joined none) (some Provoked.cause))).1.phase =
          .finished (.error (.build ["q"] (.failed ["no"]))) ∧
      Attributed [Provoked.part "p", Provoked.part "q"] Provoked.inputs false
        ((Provoked.stage (.joined none) (.joined none) (some Provoked.cause)).outcome false) := by
  obtain ⟨fx, hfairly⟩ := Provoked.fairly
  obtain ⟨-, -, -, hover⟩ := hfairly.failure_attributed rfl
    (by simp [Provoked.stage]) rfl rfl rfl
  obtain ⟨-, -, -, hattributed, herror⟩ := hover rfl
  exact ⟨fx, _, hfairly, herror _ rfl, hattributed⟩

end Call

end Conductor
