import Conductor.Proofs.Engine.Account
import Conductor.Proofs.Engine.Cleanup
/-!
# Engine — configuration errors and builds

A problem in the configuration should be found before anything is built. The
composition, its components and the configurations of its builds are looked at first; the
runner, however, is asked for its opinion of the configurations of a run when the builds
are there. So an orchestration that ends with a configuration error has started no
instances, but it has left the engine as it was only where that error is not the runner's,
or where everything to be built was found in the ledger (`Call.Solo.untouched_iff`).
-/

namespace Conductor

namespace Call

open BuildStage (Course Settled asked)

/-- A call that has the ledger to itself, from its beginning on: `first` is the call as it
begins, and its effects. -/
inductive Solo (e : Engine) (l₀ : Ledger) (first : Call × List Effect) :
    Ledger → Call → List Effect → Prop
  | start : Solo e l₀ first l₀ first.1 first.2
  | next {l l' : Ledger} {c c' : Call} {fx more : List Effect} {j : CallInput} :
    Solo e l₀ first l c fx → c.step e l j = some (l', c', more) →
      Solo e l₀ first l' c' (fx ++ more)

/-- Builds may end in any way. -/
def anyEnd : BuildRule := fun _ _ => True

/-- **The builds are behind** a call that began them as `s₀` with the ledger `l₀`, and all
of them succeeded. -/
structure BuiltAll (l₀ : Ledger) (s₀ : BuildStage) (l : Ledger) (fx : List Effect) : Prop where
  settled : ∀ i u, s₀.units[i]? = some u → ∃ r, Settled anyEnd l₀ s₀ u (asked i fx) r
  beyond : ∀ i, s₀.units[i]? = none → asked i fx = []
  untouched : (∀ u ∈ s₀.units, l₀.cache.get? u.fingerprint ≠ none) →
    l.cache = l₀.cache ∧ l.metrics.buildsExecuted = l₀.metrics.buildsExecuted

/-- What holds of an orchestration whose builds began as `s₀`, in a phase. -/
def Passed (l₀ : Ledger) (s₀ : BuildStage) (l : Ledger) (phase : CallPhase) (fx : List Effect) :
    Prop :=
  match phase with
  | .building _ s => ∃ n built, Course anyEnd l₀ s₀ n l s built ∧ ∀ i, asked i fx = asked i built
  | .finished (.error x) =>
    x.isConfiguration = true → (∃ y, x = .config .run y) ∧ BuiltAll l₀ s₀ l fx
  | .finished (.ok _) => True
  | _ => BuiltAll l₀ s₀ l fx

/-- Nothing was built, and nothing that was built is remembered. -/
structure Untouched (l₀ l : Ledger) (fx : List Effect) : Prop where
  asked : NoBuild fx
  cache : l.cache = l₀.cache
  executed : l.metrics.buildsExecuted = l₀.metrics.buildsExecuted

variable {e : Engine} {l₀ l l' : Ledger} {c c' : Call} {j : CallInput} {fx more : List Effect}
  {s₀ : BuildStage} {first : Call × List Effect} {comp : Composition} {o : CallOptions}
  {runId : String} {canceled : Bool}

/-! ## Builds that are behind -/

/-- No builder is asked where nothing is asked for any unit. -/
theorem noBuild_iff : NoBuild fx ↔ ∀ i, asked i fx = [] := by
  simp only [NoBuild, asked, List.filterMap_eq_nil_iff]
  constructor
  · intro h i x hx
    have hx := h x hx
    cases x with
    | build b n input => cases hx
    | _ => rfl
  · intro h x hx
    cases x with
    | build b n input => simpa [Effect.asks] using h n _ hx
    | _ => rfl

theorem noBuild_events (told : List LifecycleEvent) : NoBuild (told.map .event) :=
  (of_quiet (quiet_events told)).1

/-- What comes behind the builds does not matter to them. -/
theorem BuiltAll.append (h : BuiltAll l₀ s₀ l fx) (hmore : NoBuild more) :
    BuiltAll l₀ s₀ l (fx ++ more) := by
  have hasked : ∀ i, asked i (fx ++ more) = asked i fx := by
    intro i
    rw [BuildStage.asked_append, noBuild_iff.1 hmore, List.append_nil]
  refine ⟨fun i u hu => ?_, fun i hi => ?_, h.untouched⟩
  · rw [hasked]
    exact h.settled i u hu
  · rw [hasked]
    exact h.beyond i hi

/-- **The engine is as it was exactly where every unit was found.** -/
theorem BuiltAll.untouched_iff_found (h : BuiltAll l₀ s₀ l fx) :
    Untouched l₀ l fx ↔ ∀ u ∈ s₀.units, l₀.cache.get? u.fingerprint ≠ none := by
  constructor
  · intro huntouched u hu
    obtain ⟨i, hi⟩ := List.mem_iff_getElem?.1 hu
    have hasked := noBuild_iff.1 huntouched.asked i
    obtain ⟨r, ⟨-, hit, hget, -⟩ | ⟨-, n, hasked', -⟩⟩ := h.settled i u hi
    · simp [hget]
    · rw [hasked] at hasked'
      cases hasked'
  · intro hall
    refine ⟨noBuild_iff.2 fun i => ?_, (h.untouched hall).1, (h.untouched hall).2⟩
    cases hi : s₀.units[i]? with
    | none => exact h.beyond i hi
    | some u =>
      obtain ⟨r, ⟨hasked, -⟩ | ⟨hmiss, -⟩⟩ := h.settled i u hi
      · exact hasked
      · exact absurd hmiss (hall u (List.mem_of_getElem? hi))

/-- Builds that succeeded are behind the call. -/
theorem builtAll_of_course {n : Nat} {s : BuildStage} {built : List Effect}
    (h : Course anyEnd l₀ s₀ n l s built) (hasked : ∀ i, asked i fx = asked i built)
    (hnew : ∀ slot ∈ s₀.slots, slot.progress = .planned) (hclean : s₀.failure = none)
    (hover : s.isOver = true) (hf : s.failure = none) : BuiltAll l₀ s₀ l fx := by
  have account := h.accounted hnew hclean
  obtain ⟨bs, -, -, hunits⟩ := account.results hover hf false
  refine ⟨fun i u hu => ?_, fun i hi => ?_, account.untouched⟩
  · obtain ⟨r, -, hsettled⟩ := hunits i u hu
    exact ⟨r, hasked i ▸ hsettled⟩
  · rw [hasked]
    refine account.beyond i ?_
    rw [← account.same.units_eq, BuildStage.units, List.getElem?_map,
      Option.map_eq_none_iff] at hi
    exact hi

/-! ## From phase to phase -/

/-- The start of a run asks no builder, and fails for a configuration if the runner says so. -/
theorem passed_startRun (p : RunProgress) (h : BuiltAll l₀ s₀ l fx) :
    Passed l₀ s₀ l (c.startRun e p).1.phase (fx ++ (c.startRun e p).2) := by
  unfold startRun
  split
  · rename_i error herror
    exact fun _ => ⟨input_error herror, h.append (noBuild_events [_])⟩
  · split
    · exact fun hx => by cases hx
    · exact h.append (by simp [NoBuild, Effect.isBuild])

/-- The gate in front of a run. -/
theorem passed_gate (o : RunOrder) (builds : List BuildResult) (h : BuiltAll l₀ s₀ l fx) :
    Passed l₀ s₀ l (c.gate e o builds).1.phase (fx ++ (c.gate e o builds).2) := by
  unfold gate
  split
  · exact h.append (by simp [NoBuild, Effect.isBuild])
  · exact passed_startRun _ h

/-- The end of the builds. A build that failed is no configuration error. -/
theorem passed_concludeBuilds (o : Option RunOrder) (s : BuildStage)
    (h : s.failure = none → BuiltAll l₀ s₀ l fx) :
    Passed l₀ s₀ l (c.concludeBuilds e o s).1.phase (fx ++ (c.concludeBuilds e o s).2) := by
  unfold concludeBuilds BuildStage.outcome
  cases hf : s.failure with
  | none =>
    cases o with
    | none => trivial
    | some o => exact passed_gate o _ (h hf)
  | some f =>
    cases o <;> cases c.canceled <;> exact fun hx => by cases hx

/-- The health of the runner. -/
theorem passed_passGate (o : RunOrder) (builds : List BuildResult) (result : HealthResult)
    (h : BuiltAll l₀ s₀ l fx) :
    Passed l₀ s₀ l (c.passGate e o builds result).1.phase
      (fx ++ (c.passGate e o builds result).2) := by
  unfold passGate
  cases result with
  | error error => exact fun hx => by cases hx
  | ok report =>
    dsimp only
    cases o.policy.rejection? report with
    | some reason => exact fun hx => by cases hx
    | none =>
      rw [List.append_cons]
      exact passed_startRun _ (h.append (noBuild_events [_]))

/-- The end of the runner. -/
theorem passed_endRun (p : RunProgress) (result : Except RunError RunOutput)
    (h : BuiltAll l₀ s₀ l fx) :
    Passed l₀ s₀ l (c.endRun p result).1.phase (fx ++ (c.endRun p result).2) := by
  cases result with
  | ok out => exact h.append (by simp [endRun, NoBuild])
  | error x =>
    cases x with
    | canceled => exact h.append (by simp [endRun, NoBuild])
    | failed causes => exact fun hx => by cases hx
    | invalidInput reason => exact fun hx => by cases hx

/-- Effects that ask no builder do not matter. -/
theorem Passed.append {phase : CallPhase} (h : Passed l₀ s₀ l phase fx) (hmore : NoBuild more) :
    Passed l₀ s₀ l phase (fx ++ more) := by
  cases phase with
  | building o s =>
    obtain ⟨n, built, course, hasked⟩ := h
    refine ⟨n, built, course, fun i => ?_⟩
    rw [BuildStage.asked_append, noBuild_iff.1 hmore, List.append_nil, hasked]
  | finished r =>
    cases r with
    | ok answer => trivial
    | error x => exact fun hx => ⟨(h hx).1, (h hx).2.append hmore⟩
  | gated o builds => exact BuiltAll.append h hmore
  | examining runner => exact BuiltAll.append h hmore
  | running p => exact BuiltAll.append h hmore
  | collecting p => exact BuiltAll.append h hmore

/-- **The step lemma.** -/
theorem Step.passed (h : Step e l c j l' c' more) (hp : Passed l₀ s₀ l c.phase fx)
    (hnew : ∀ slot ∈ s₀.slots, slot.progress = .planned) (hclean : s₀.failure = none) :
    Passed l₀ s₀ l' c'.phase (fx ++ more) := by
  cases h with
  | cancel => exact hp.append (by simp [NoBuild])
  | hangUp => exact hp.append (by simp [NoBuild])
  | build hphase hs =>
    rw [hphase] at hp
    obtain ⟨n, built, course, hasked⟩ := hp
    exact ⟨n + 1, built ++ more, course.proceed hs, fun i => by simp [hasked]⟩
  | @conclude o s hphase _ hover =>
    rw [hphase] at hp
    obtain ⟨n, built, course, hasked⟩ := hp
    exact passed_concludeBuilds o s (builtAll_of_course course hasked hnew hclean hover)
  | report => trivial
  | finish hphase hs =>
    rw [hphase] at hp
    obtain ⟨n, built, course, hasked⟩ := hp
    obtain ⟨u, build, told, hslot, -, -⟩ := BuildStage.finish_cases hs
    exact ⟨n + 1, built ++ more, course.finish hslot trivial hs, fun i => by simp [hasked]⟩
  | join hphase hs =>
    rw [hphase] at hp
    obtain ⟨n, built, course, hasked⟩ := hp
    exact ⟨n + 1, built, course.join hs, fun i => by simp [hasked]⟩
  | @pass o builds result hphase =>
    rw [hphase] at hp
    exact passed_passGate o builds result hp
  | healthy => trivial
  | unhealthy => exact fun hx => by cases hx
  | collect => exact hp.append (of_quiet quiet_collectEffects).1
  | @returned p result hphase =>
    rw [hphase] at hp
    exact passed_endRun p result hp

/-! ## Orchestrations -/

namespace Solo

/-- An orchestration is tidy. -/
theorem tidy (h : Solo e l₀ (Call.start e runId canceled (.orchestrate comp o)) l c fx) :
    Tidy (fun _ => True) c.phase fx := by
  induction h with
  | start => exact tidy_start runId canceled comp o
  | next _ step ih => exact (Step.of_step step).tidy ih fun _ _ _ _ => trivial

/-- **The run lemma**, for an orchestration whose builds begin. -/
theorem passed {order : Option RunOrder}
    (h : Solo e l₀ (Call.start e runId canceled (.orchestrate comp o)) l c fx)
    (hbegin : beginRun e canceled comp o = .ok (.building order s₀))
    (hnew : ∀ slot ∈ s₀.slots, slot.progress = .planned) (hclean : s₀.failure = none) :
    Passed l₀ s₀ l c.phase fx := by
  induction h with
  | start =>
    simp only [Call.start, hbegin, opened]
    exact ⟨0, [], .start, fun _ => rfl⟩
  | next _ step ih => exact (Step.of_step step).passed ih hnew hclean

/-- An orchestration that cannot begin keeps its error, and the ledger is as it was. -/
theorem of_early {error : OrchestrationError}
    (h : Solo e l₀ (Call.start e runId canceled (.orchestrate comp o)) l c fx)
    (hbegin : beginRun e canceled comp o = .error error) :
    c.phase = .finished (.error error) ∧ l = l₀ := by
  induction h with
  | start => simp only [Call.start, hbegin, opened, and_self]
  | next _ step ih =>
    obtain ⟨hphase, rfl⟩ := ih
    exact (Step.of_step step).finished hphase

/-- **What a configuration error leaves behind.** No instance was started. Nothing was
built, and the ledger is as it was, exactly where the error is not the runner's, or every
unit of the composition was found. -/
theorem untouched_iff {x : OrchestrationError}
    (h : Solo e l₀ (Call.start e runId canceled (.orchestrate comp o)) l c fx)
    (hphase : c.phase = .finished (.error x)) (hx : x.isConfiguration = true) :
    (∀ runner input, Effect.run runner input ∉ fx) ∧
      (Untouched l₀ l fx ↔ (∀ y, x ≠ .config .run y) ∨
        ∀ order s, beginRun e canceled comp o = .ok (.building order s) →
          ∀ u ∈ s.units, l₀.cache.get? u.fingerprint ≠ none) := by
  have hleaves : Leaves (fun _ => True) (.error x) fx := by
    have htidy := h.tidy
    rwa [hphase] at htidy
  refine ⟨fun runner input hmem => ?_, ?_⟩
  · have hruns : Effect.run runner input ∈ runs fx := List.mem_filter.2 ⟨hmem, rfl⟩
    rw [hleaves.runs_eq_nil hx] at hruns
    cases hruns
  · rcases beginRun_cases e canceled comp o with
      ⟨order, s, v, b, hbegin, hplanned⟩ | ⟨error, hbegin, hearly⟩
    · -- the error comes behind the builds, and there it is the runner's
      obtain ⟨-, -, -, hnew, -, hclean⟩ := BuildStage.planned_cases hplanned
      have hpassed := h.passed hbegin hnew hclean
      rw [hphase] at hpassed
      obtain ⟨⟨y, rfl⟩, hbuilt⟩ := hpassed hx
      rw [hbuilt.untouched_iff_found, or_iff_right fun hne => hne y rfl]
      constructor
      · intro hall order' s' hbegin'
        rw [hbegin] at hbegin'
        cases hbegin'
        exact hall
      · exact fun hall => hall _ s hbegin
    · obtain ⟨hfinal, rfl⟩ := h.of_early hbegin
      rw [hphase] at hfinal
      cases hfinal
      exact iff_of_true ⟨hleaves.noBuild hx hearly, rfl, rfl⟩ (.inl fun y hy => by
        subst hy
        exact hearly)

end Solo

/-! ## A build before a refusal

One instance is wanted of a group that is to be built. The builder takes its configuration,
and the runner refuses that of the run. -/

namespace Refusal

def builder : Builder := ⟨Local.builderId, [], fun _ => .ok ()⟩

def refusal : ConfigError := .mismatch "local:exec" "unknown field"

def runner : Runner := ⟨Local.runnerId, ["exec"], fun _ => .error refusal, none⟩

def engine : Engine := ⟨⟨[builder], [runner]⟩, .standard, ⟨"/home"⟩⟩

def composition : Composition where
  metadata := ⟨"", ""⟩
  settings := ⟨"plan", "case", 0, "exec:bin", "local:exec", [], none, [], none⟩
  groups := [⟨"p", ⟨1, .zero⟩, .none, [], [], ⟨none, []⟩⟩]

def valid : ValidComposition := ⟨composition.complete [1], builder.id, some runner.id, [1]⟩

def order : RunOrder := ⟨valid, runner, .standard⟩

def output : BuildOutput := ⟨"artifact", []⟩

/-- The call with its builds in a stage. -/
def call (s : BuildStage) : Call := opened "run" false false (.building (some order) s)

/-- The stage with its unit in some progress. -/
def stage (u : BuildUnit) (p : UnitProgress) : BuildStage :=
  ⟨builder.id, "plan", "/home/plans/plan", [⟨u, p⟩], false, none⟩

/-- What the builder is asked. -/
def input (u : BuildUnit) : BuildInput := (stage u .planned).inputOf u 0

theorem begins : ∃ u, beginRun engine false composition ⟨none, none, false⟩ =
    .ok (.building (some order) (stage u .planned)) :=
  ⟨_, rfl⟩

/-- The way of the call: its unit is missed, started, built and joined, and then the runner
is asked for its opinion. -/
theorem follows : ∃ u l fx, Solo engine .empty
    (Call.start engine "run" false (.orchestrate composition ⟨none, none, false⟩)) l
    (opened "run" false false (.finished (.error (.config .run refusal)))) fx ∧
      Effect.build builder.id 0 (input u) ∈ fx := by
  obtain ⟨u, hbegin⟩ := begins
  have hstart : Call.start engine "run" false (.orchestrate composition ⟨none, none, false⟩) =
      (call (stage u .planned), []) := by
    rw [Call.start, hbegin]
    rfl
  rw [hstart]
  have h₀ : Solo engine .empty (call (stage u .planned), []) .empty (call (stage u .planned)) [] :=
    .start
  have h₁ : Solo engine .empty _ .empty (call (stage u .missing)) [] :=
    h₀.next (j := .proceed) rfl
  have h₂ : Solo engine .empty _ Ledger.empty.countStart (call (stage u (.building 0)))
      [.event (.buildStarted 0 builder.id u.groupIds), .build builder.id 0 (input u)] :=
    h₁.next (j := .proceed) rfl
  have h₃ : Solo engine .empty _ _ (call (stage u (.ended 0 (.returned (.ok output))))) _ :=
    h₂.next (j := .finish 0 (.returned (.ok output))) rfl
  have h₄ : Solo engine .empty _ _
      (call (stage u (.joined (some ((stage u .planned).resultOf u output))))) _ :=
    h₃.next (j := .join 0) rfl
  exact ⟨u, _, _, h₄.next (j := .proceed) rfl, by simp⟩

end Refusal

/-- The runner's refusal leaves a build behind. -/
theorem touched_of_refusal : ∃ l fx, Solo Refusal.engine .empty
    (start Refusal.engine "run" false (.orchestrate Refusal.composition ⟨none, none, false⟩)) l
    (opened "run" false false (.finished (.error (.config .run Refusal.refusal)))) fx ∧
      (∀ runner input, Effect.run runner input ∉ fx) ∧ ¬ Untouched .empty l fx := by
  obtain ⟨u, l, fx, hsolo, -⟩ := Refusal.follows
  obtain ⟨hruns, huntouched⟩ := hsolo.untouched_iff rfl rfl
  refine ⟨l, fx, hsolo, hruns, fun h => ?_⟩
  rcases huntouched.1 h with hne | hfound
  · exact hne _ rfl
  · obtain ⟨u, hbegin⟩ := Refusal.begins
    exact hfound _ _ hbegin u (List.mem_singleton_self u) rfl

/-- So a configuration error is not always found before anything is built. -/
theorem not_configuration_first :
    ¬ ∀ (e : Engine) (l₀ l : Ledger) (runId : String) (canceled : Bool) (comp : Composition)
      (o : CallOptions) (c : Call) (fx : List Effect) (x : OrchestrationError),
      Solo e l₀ (start e runId canceled (.orchestrate comp o)) l c fx →
        c.phase = .finished (.error x) → x.isConfiguration = true →
        (∀ runner input, Effect.run runner input ∉ fx) ∧ Untouched l₀ l fx := by
  intro h
  obtain ⟨u, l, fx, hsolo, hmem⟩ := Refusal.follows
  have huntouched := (h _ _ _ _ _ _ _ _ _ _ hsolo rfl rfl).2
  cases huntouched.asked _ hmem

end Call

end Conductor
