import Conductor.Proofs.Engine.Entries
/-!
# Engine — which build is to blame

A build that fails cancels the builds beside it, and these fail then as well. The error of
the call names the cause: the failure that was joined first (`FailedFirst`), as long as a
builder returns a cancellation only where there was one (`CallInput.IsFair`).

`BuildStep` is what a step of the call is to a stage that is there before and behind it. The
invariant is `Watched`: as long as nothing has failed no build can have been canceled, so the
first failure is more than a cancellation, and no later one takes its place.
-/

namespace Conductor

/-- An end that the task of a build may come to: it does not break down, and its builder
finds it canceled only if the builds are. -/
def CallInput.IsFair (c : Call) : CallInput → Prop
  | .finish _ (.broke _) => False
  | .finish _ (.returned (.error .canceled)) => c.buildsCanceled = true
  | _ => True

/-- The input is a step of the build stage. -/
def CallInput.isBuildStep : CallInput → Bool
  | .proceed => true
  | .finish _ _ => true
  | .join _ => true
  | _ => false

/-- **The failure that was joined first**: the task had ended with it, and those that were
joined before had ended well. -/
def FailedFirst (is : List CallInput) (unit : Nat) (error : BuildError) : Prop :=
  ∃ before after, is = before ++ .join unit :: after ∧
    .finish unit (.returned (.error error)) ∈ before ∧
      ∀ i, .join i ∈ before → ∃ out, .finish i (.returned (.ok out)) ∈ before

/-- Some task has failed. -/
def SomeFailed (is : List CallInput) : Prop :=
  ∃ unit how, .finish unit how ∈ is ∧ how.isSuccess = false

/-- **A failure is attributed to its cause.** -/
structure Attributed (units : List BuildUnit) (is : List CallInput) (canceled : Bool)
    (r : Except OrchestrationError (List BuildResult)) : Prop where
  succeeds : (∃ builds, r = .ok builds) ↔ ¬ SomeFailed is
  blames : SomeFailed is → canceled = false → ∃ unit u error, FailedFirst is unit error ∧
    error ≠ .canceled ∧ units[unit]? = some u ∧ r = .error (.build u.groupIds error)
  cancels : SomeFailed is → canceled = true → r = .error (.canceled .build)

/-! ## What the inputs say -/

variable {is more : List CallInput} {unit : Nat} {error : BuildError} {how : BuildEnd}
  {j : CallInput}

/-- How the builds of a unit have ended. -/
def endsIn (unit : Nat) (is : List CallInput) : List BuildEnd := is.filterMap (CallInput.ends unit)

theorem endsIn_append : endsIn unit (is ++ [j]) = endsIn unit is ++ (j.ends unit).toList := by
  rw [endsIn, List.filterMap_append]
  cases h : j.ends unit <;> simp [endsIn, h]

theorem mem_endsIn : how ∈ endsIn unit is ↔ .finish unit how ∈ is := by
  rw [endsIn, List.mem_filterMap]
  constructor
  · rintro ⟨j, hj, hends⟩
    cases j with
    | finish n how' =>
      simp only [CallInput.ends] at hends
      split at hends
      · rename_i hn
        cases hends
        exact hn ▸ hj
      · cases hends
    | _ => cases hends
  · exact fun h => ⟨_, h, by simp [CallInput.ends]⟩

/-- The first failure stays the first. -/
theorem FailedFirst.append (h : FailedFirst is unit error) (more : List CallInput) :
    FailedFirst (is ++ more) unit error := by
  obtain ⟨before, after, rfl, hfinish, hgood⟩ := h
  exact ⟨before, after ++ more, by simp, hfinish, hgood⟩

/-- Who failed first has failed. -/
theorem FailedFirst.someFailed (h : FailedFirst is unit error) : SomeFailed is := by
  obtain ⟨before, after, rfl, hfinish, -⟩ := h
  exact ⟨unit, _, List.mem_append_left _ hfinish, rfl⟩

/-! ## The steps of a stage -/

namespace BuildStage

variable {s s' s₀ : BuildStage} {l l' : Ledger} {i n : Nat} {u : BuildUnit} {out : BuildOutput}
  {fx : List Effect} {canceled canceled' : Bool} {c c' c₀ : Call} {o : Option RunOrder}
  {e : Engine}

/-- A unit that gave an artifact fails nothing. -/
theorem join_ok (h : s.join l i = some (s', l'))
    (hslot : s.slots[i]? = some ⟨u, .ended n (.returned (.ok out))⟩) :
    s'.failure = s.failure ∧ s'.canceled = s.canceled := by
  unfold join at h
  split at h
  · rename_i hslot'
    rw [hslot] at hslot'
    cases hslot'
    cases h
    exact ⟨rfl, rfl⟩
  · cases h

/-- A unit that gave an error fails the stage, behind the failure that there was. -/
theorem join_error (h : s.join l i = some (s', l'))
    (hslot : s.slots[i]? = some ⟨u, .ended n (.returned (.error error))⟩) :
    s'.failure = some (BuildFailure.after ⟨u.groupIds, error⟩ s.failure) ∧
      s'.canceled = true := by
  unfold join at h
  split at h
  · rename_i hslot'
    rw [hslot] at hslot'
    cases hslot'
    cases h
    exact ⟨rfl, rfl⟩
  · cases h

/-- A failure that is more than a cancellation stays. -/
theorem BuildFailure.after_of_ne {old : BuildFailure} (h : old.error ≠ .canceled)
    (new : BuildFailure) : BuildFailure.after new (some old) = old := by
  rw [BuildFailure.after, if_neg h]

/-- **What a step of a call is to a stage** that is there before and behind it, and to the
cancellation of the run. -/
inductive BuildStep (l : Ledger) (s : BuildStage) (canceled : Bool) :
    CallInput → BuildStage → Bool → List Effect → Prop
  | cancel : BuildStep l s canceled .cancel s true []
  | proceed {s' : BuildStage} {l' : Ledger} {fx : List Effect} :
    s.proceed l = some (s', l', fx) → BuildStep l s canceled .proceed s' canceled fx
  | finish {s' : BuildStage} {unit : Nat} {how : BuildEnd} {fx : List Effect} :
    s.finish unit how = some (s', fx) → BuildStep l s canceled (.finish unit how) s' canceled fx
  | join {s' : BuildStage} {unit : Nat} {l' : Ledger} :
    s.join l unit = some (s', l') → BuildStep l s canceled (.join unit) s' canceled []
  | rests {j : CallInput} {fx : List Effect} : j.isBuildStep = false → j ≠ .cancel →
    BuildStep l s canceled j s canceled fx

/-- **Every step between two stages is one of these.** -/
theorem BuildStep.of_step (h : c.step e l j = some (l', c', fx))
    (hphase' : c'.phase = .building o s') :
    ∃ s, c.phase = .building o s ∧ BuildStep l s c.canceled j s' c'.canceled fx := by
  have left : ∀ {d : Call}, d.BuildsOver → d.phase ≠ .building o s' := by
    intro d hover hphase
    rw [Call.BuildsOver, hphase] at hover
    cases hover
  cases Call.Step.of_step h with
  | cancel => exact ⟨s', hphase', .cancel⟩
  | collect => exact ⟨s', hphase', .rests rfl (by simp)⟩
  | hangUp => exact ⟨s', hphase', .rests rfl (by simp)⟩
  | build hphase hs =>
    cases hphase'
    exact ⟨_, hphase, .proceed hs⟩
  | finish hphase hs =>
    cases hphase'
    exact ⟨_, hphase, .finish hs⟩
  | join hphase hs =>
    cases hphase'
    exact ⟨_, hphase, .join hs⟩
  | conclude => exact absurd hphase' (left (Call.over_concludeBuilds _ _).1)
  | report => exact absurd hphase' (left (Call.over_concludeRun _).1)
  | pass => exact absurd hphase' (left (Call.over_passGate ..).1)
  | returned => exact absurd hphase' (left (Call.over_endRun ..).1)
  | healthy => cases hphase'
  | unhealthy => cases hphase'

/-! ## The invariant -/

/-- What the inputs and the effects tell of each unit goes with its progress. -/
def Told (o : Option RunOrder) (s : BuildStage) (is : List CallInput) (fx : List Effect) : Prop :=
  ∃ entries : Nat → List BuildResult,
    Call.Recounted (.building o s) fun i => ⟨asked i fx, endsIn i is, entries i⟩

/-- Who is to blame for the failure of a stage: nobody, or the unit that failed first. -/
inductive Blamed (units : List BuildUnit) (is : List CallInput) (canceled : Bool)
    (s : BuildStage) : Prop
  | nobody : s.failure = none → s.canceled = false →
    (∀ i, .join i ∈ is → ∃ out, .finish i (.returned (.ok out)) ∈ is) → Blamed units is canceled s
  | first {unit : Nat} {u : BuildUnit} {error : BuildError} {f : BuildFailure} :
    FailedFirst is unit error → units[unit]? = some u → s.failure = some f →
      (canceled = false → f = ⟨u.groupIds, error⟩ ∧ error ≠ .canceled) →
        Blamed units is canceled s

/-- **What is watched of a stage** that has come from one in which nothing had happened. -/
structure Watched (s₀ : BuildStage) (is : List CallInput) (canceled : Bool) (s : BuildStage) :
    Prop where
  units : s.units = s₀.units
  joined : ∀ i slot how, s.slots[i]? = some slot → slot.progress.isJoined = true →
    .finish i how ∈ is → .join i ∈ is
  unbroken : ∀ i message, .finish i (.broke message) ∉ is
  /-- Where nothing is canceled nothing was found canceled. -/
  uncanceled : canceled = false → s.canceled = false →
    ∀ i, .finish i (.returned (.error .canceled)) ∉ is
  blamed : Blamed s₀.units is canceled s
  steps : is.countP CallInput.isBuildStep + s.stepsLeft ≤ 4 * s₀.units.length

/-- A unit that was joined, or has ended, has ended so. -/
theorem Told.ended (h : Told o s is fx) (hslot : s.slots[i]? = some ⟨u, .ended n how⟩) :
    .finish i how ∈ is := by
  obtain ⟨entries, hslots, -⟩ := h
  have hstory := congrArg Call.Story.ends (hslots i _ hslot)
  have hends : endsIn i is = [how] := hstory
  exact mem_endsIn.1 (by simp [hends])

/-- A unit that is not yet looked for has not ended. -/
theorem Told.planned (h : Told o s is fx) (hslot : s.slots[i]? = some ⟨u, .planned⟩) :
    .finish i how ∉ is := by
  obtain ⟨entries, hslots, -⟩ := h
  have hstory := congrArg Call.Story.ends (hslots i _ hslot)
  have hends : endsIn i is = [] := hstory
  intro hmem
  have hmem := mem_endsIn.2 hmem
  rw [hends] at hmem
  cases hmem

/-- An input that ends nothing and joins nothing does not change who is to blame. -/
theorem Blamed.rest {units : List BuildUnit} (h : Blamed units is canceled s)
    (hj : j.unit? = none) (hfailure : s'.failure = s.failure)
    (hstage : s'.canceled = s.canceled) (hcanceled : canceled' = false → canceled = false) :
    Blamed units (is ++ [j]) canceled' s' := by
  cases h with
  | nobody hnone hclean hgood =>
    refine .nobody (hfailure.trans hnone) (hstage.trans hclean) fun i hi => ?_
    rcases List.mem_append.1 hi with hi | hi
    · obtain ⟨out, hout⟩ := hgood i hi
      exact ⟨out, List.mem_append_left _ hout⟩
    · rw [← List.mem_singleton.1 hi] at hj
      cases hj
  | first hfirst hunit hf hblame =>
    exact .first (hfirst.append _) hunit (hfailure.trans hf) fun hc => hblame (hcanceled hc)

/-- Going on with such an input keeps what is watched of the ends. -/
theorem Watched.rest (h : Watched s₀ is canceled s) (hj : j.unit? = none)
    (hunits : s'.units = s₀.units) (hfailure : s'.failure = s.failure)
    (hstage : s'.canceled = s.canceled) (hcanceled : canceled' = false → canceled = false)
    (hjoined : ∀ i slot how, s'.slots[i]? = some slot → slot.progress.isJoined = true →
      .finish i how ∈ is → .join i ∈ is)
    (hsteps : j.isBuildStep.toNat + s'.stepsLeft ≤ s.stepsLeft) :
    Watched s₀ (is ++ [j]) canceled' s' := by
  have hends : ∀ {i how}, .finish i how ∈ is ++ [j] → .finish i how ∈ is := by
    intro i how hmem
    rcases List.mem_append.1 hmem with hmem | hmem
    · exact hmem
    · rw [← List.mem_singleton.1 hmem] at hj
      cases hj
  refine ⟨hunits, fun i slot how hslot hp hmem => ?_, fun i message hmem => ?_,
    fun hc hs i hmem => ?_, h.blamed.rest hj hfailure hstage hcanceled, ?_⟩
  · exact List.mem_append_left _ (hjoined i slot how hslot hp (hends hmem))
  · exact h.unbroken i message (hends hmem)
  · exact h.uncanceled (hcanceled hc) (hstage ▸ hs) i (hends hmem)
  · have hcount := h.steps
    rw [List.countP_append, List.countP_singleton]
    cases hstep : j.isBuildStep with
    | false =>
      rw [hstep, Bool.toNat_false] at hsteps
      simp only [Bool.false_eq_true, if_false]
      omega
    | true =>
      rw [hstep, Bool.toNat_true] at hsteps
      simp only [if_true]
      omega

/-- The stage goes on by itself. -/
theorem Watched.proceed (h : Watched s₀ is canceled s) (htold : Told o s is fx)
    {fx' : List Effect} (hs : s.proceed l = some (s', l', fx')) :
    Watched s₀ (is ++ [.proceed]) canceled s' := by
  have hless := stepsLeft_proceed hs
  have moved : ∀ {i u p q}, s.slots[i]? = some ⟨u, q⟩ →
      (p.isJoined = true → q = .planned) → (s.put i p).stepsLeft < s.stepsLeft →
        Watched s₀ (is ++ [.proceed]) canceled (s.put i p) := by
    intro i u p q hslot hp hless
    refine h.rest rfl (units_put.trans h.units) rfl rfl id (fun k slot how hk hjoined hmem => ?_) ?_
    · rw [getElem?_put hslot] at hk
      split at hk
      · rename_i hik
        subst hik
        cases hk
        exact absurd hmem (htold.planned (hp hjoined ▸ hslot))
      · exact h.joined k slot how hk hjoined hmem
    · rw [CallInput.isBuildStep, Bool.toNat_true]
      omega
  rcases proceed_cases hs with ⟨i, u, hit, hslot, -, rfl, -⟩ | ⟨i, u, hslot, -, rfl, -⟩ |
    ⟨i, u, hslot, rfl, -⟩
  · exact moved hslot (fun _ => rfl) hless
  · exact moved hslot (fun _ => rfl) hless
  · exact moved hslot (fun hp => by cases hp) hless

/-- The task of a unit ends, as it may. -/
theorem Watched.finish (h : Watched s₀ is canceled s) {fx' : List Effect}
    (hs : s.finish i how = some (s', fx')) (hwhole : ∀ message, how ≠ .broke message)
    (hfair : how = .returned (.error .canceled) → canceled = true ∨ s.canceled = true) :
    Watched s₀ (is ++ [.finish i how]) canceled s' := by
  have hless := stepsLeft_finish hs
  obtain ⟨u, n, told, hslot, rfl, -⟩ := finish_cases hs
  have hends : ∀ {k how'}, .finish k how' ∈ is ++ [.finish i how] →
      .finish k how' ∈ is ∨ k = i ∧ how' = how := by
    intro k how' hmem
    rcases List.mem_append.1 hmem with hmem | hmem
    · exact .inl hmem
    · cases List.mem_singleton.1 hmem
      exact .inr ⟨rfl, rfl⟩
  have hjoins : ∀ {k}, .join k ∈ is ++ [.finish i how] → .join k ∈ is := by
    intro k hmem
    rcases List.mem_append.1 hmem with hmem | hmem
    · exact hmem
    · cases List.mem_singleton.1 hmem
  refine ⟨units_put.trans h.units, fun k slot how' hk hjoined hmem => ?_, fun k message hmem => ?_,
    fun hc hclean k hmem => ?_, ?_, ?_⟩
  · refine List.mem_append_left _ ?_
    rw [getElem?_put hslot] at hk
    split at hk
    · cases hk
      cases hjoined
    · rename_i hik
      rcases hends hmem with hmem | ⟨rfl, -⟩
      · exact h.joined k slot how' hk hjoined hmem
      · exact absurd rfl hik
  · rcases hends hmem with hmem | ⟨-, heq⟩
    · exact h.unbroken k message hmem
    · exact hwhole message heq.symm
  · rcases hends hmem with hmem | ⟨-, heq⟩
    · exact h.uncanceled hc hclean k hmem
    · rcases hfair heq.symm with hcanceled | hcanceled
      · rw [hc] at hcanceled
        cases hcanceled
      · have hclean : s.canceled = false := hclean
        rw [hclean] at hcanceled
        cases hcanceled
  · cases h.blamed with
    | nobody hnone hclean hgood =>
      refine .nobody hnone hclean fun k hk => ?_
      obtain ⟨out, hout⟩ := hgood k (hjoins hk)
      exact ⟨out, List.mem_append_left _ hout⟩
    | first hfirst hunit hf hblame => exact .first (hfirst.append _) hunit hf hblame
  · have hcount := h.steps
    rw [List.countP_append, List.countP_singleton]
    simp only [CallInput.isBuildStep, if_true]
    omega

/-- **Who is to blame** when one more unit is joined: the first that failed, and nobody if
that has succeeded as well. -/
theorem Watched.blamed_join (h : Watched s₀ is canceled s) (htold : Told o s is fx)
    (hs : s.join l i = some (s', l')) : Blamed s₀.units (is ++ [.join i]) canceled s' := by
  obtain ⟨-, u, n, how, hslot, -⟩ := join_cases hs
  have hend := htold.ended hslot
  have hunit : s₀.units[i]? = some u := by
    rw [← h.units, BuildStage.units, List.getElem?_map, hslot]
    rfl
  cases how with
  | broke message => exact absurd hend (h.unbroken i message)
  | returned result =>
    cases result with
    | ok out =>
      obtain ⟨hfailure, hstage⟩ := join_ok hs hslot
      cases h.blamed with
      | nobody hnone hclean hgood =>
        refine .nobody (hfailure.trans hnone) (hstage.trans hclean) fun k hk => ?_
        rcases List.mem_append.1 hk with hk | hk
        · obtain ⟨out', hout⟩ := hgood k hk
          exact ⟨out', List.mem_append_left _ hout⟩
        · cases List.mem_singleton.1 hk
          exact ⟨out, List.mem_append_left _ hend⟩
      | first hfirst hblamed hf hblame =>
        exact .first (hfirst.append _) hblamed (hfailure.trans hf) hblame
    | error error =>
      obtain ⟨hfailure, -⟩ := join_error hs hslot
      cases h.blamed with
      | nobody hnone hclean hgood =>
        -- nothing was canceled before, so this is more than a cancellation
        rw [hnone] at hfailure
        have hfirst : FailedFirst (is ++ [.join i]) i error := ⟨is, [], rfl, hend, hgood⟩
        refine .first hfirst hunit hfailure fun hc => ⟨rfl, ?_⟩
        rintro rfl
        exact h.uncanceled hc hclean i hend
      | @first k u' error' f hfirst hblamed hf hblame =>
        rw [hf] at hfailure
        refine .first (hfirst.append _) hblamed hfailure fun hc => ?_
        obtain ⟨rfl, hne⟩ := hblame hc
        exact ⟨BuildFailure.after_of_ne hne _, hne⟩

/-- A unit is joined. -/
theorem Watched.join (h : Watched s₀ is canceled s) (htold : Told o s is fx)
    (hs : s.join l i = some (s', l')) : Watched s₀ (is ++ [.join i]) canceled s' := by
  have hless := stepsLeft_join hs
  have hblamed := h.blamed_join htold hs
  obtain ⟨-, u, n, how, hslot, hcase⟩ := join_cases hs
  obtain ⟨r, hslots⟩ : ∃ r, s'.slots = (s.put i (.joined r)).slots := by
    rcases hcase with ⟨out, -, rfl, -⟩ | ⟨failure, -, -, rfl⟩
    · exact ⟨_, rfl⟩
    · exact ⟨none, rfl⟩
  have hstage : s'.canceled = false → s.canceled = false := by
    rcases hcase with ⟨out, -, rfl, -⟩ | ⟨failure, -, -, rfl⟩
    · exact id
    · exact fun hc => by cases hc
  have hends : ∀ {k how'}, .finish k how' ∈ is ++ [.join i] → .finish k how' ∈ is := by
    intro k how' hmem
    rcases List.mem_append.1 hmem with hmem | hmem
    · exact hmem
    · cases List.mem_singleton.1 hmem
  refine ⟨?_, fun k slot how' hk hjoined hmem => ?_, fun k message hmem => ?_,
    fun hc hclean k hmem => ?_, hblamed, ?_⟩
  · rw [BuildStage.units, hslots]
    exact units_put.trans h.units
  · rw [hslots, getElem?_put hslot] at hk
    split at hk
    · rename_i hik
      subst hik
      exact List.mem_append_right _ (List.mem_singleton_self _)
    · exact List.mem_append_left _ (h.joined k slot how' hk hjoined (hends hmem))
  · exact h.unbroken k message (hends hmem)
  · exact h.uncanceled hc (hstage hclean) k (hends hmem)
  · have hcount := h.steps
    rw [List.countP_append, List.countP_singleton]
    simp only [CallInput.isBuildStep, if_true]
    omega

/-- **The step lemma.** -/
theorem Watched.step (h : Watched s₀ is c.canceled s) (htold : Told o s is fx)
    (hphase : c.phase = .building o s) (hfair : j.IsFair c) {fx' : List Effect}
    (hstep : BuildStep l s c.canceled j s' canceled' fx') :
    Watched s₀ (is ++ [j]) canceled' s' := by
  have hsame : ∀ i slot how, s.slots[i]? = some slot → slot.progress.isJoined = true →
      .finish i how ∈ is → .join i ∈ is := h.joined
  cases hstep with
  | cancel =>
    exact h.rest rfl h.units rfl rfl (fun hc => by cases hc) hsame
      (by simp [CallInput.isBuildStep])
  | proceed hs => exact h.proceed htold hs
  | join hs => exact h.join htold hs
  | finish hs =>
    refine h.finish hs (fun message heq => ?_) fun heq => ?_
    · rw [heq] at hfair
      exact hfair
    · rw [heq] at hfair
      have hbuilds : c.buildsCanceled = true := hfair
      rw [Call.buildsCanceled, hphase] at hbuilds
      simpa using hbuilds
  | rests hj _ =>
    have hunit : j.unit? = none := by
      cases j with
      | finish unit how => cases hj
      | join unit => cases hj
      | _ => rfl
    exact h.rest hunit h.units rfl rfl id hsame (by simp [hj])

/-- A run is canceled from without, and not by its builds. -/
theorem BuildStep.canceled_iff (h : BuildStep l s canceled j s' canceled' fx) :
    canceled' = true ↔ canceled = true ∨ j = .cancel := by
  cases h with
  | cancel => simp
  | proceed => simp
  | finish => simp
  | join => simp
  | rests _ hj => simp [hj]

/-! ## Stages that are over -/

/-- The unit of a stage that is over whose build has ended was joined. -/
theorem Watched.joined_of_over (h : Watched s₀ is canceled s) (htold : Told o s is fx)
    (hover : s.isOver = true) (hend : .finish i how ∈ is) : .join i ∈ is := by
  obtain ⟨entries, -, hbeyond⟩ := htold
  rw [isOver, List.all_eq_true] at hover
  cases hslot : s.slots[i]? with
  | some slot => exact h.joined i slot how hslot (hover slot (List.mem_of_getElem? hslot)) hend
  | none =>
    have hends : endsIn i is = [] := congrArg Call.Story.ends (hbeyond i hslot)
    have hmem := mem_endsIn.2 hend
    rw [hends] at hmem
    cases hmem

/-- A build ends once. -/
theorem Told.ends_unique (htold : Told o s is fx) (hover : s.isOver = true) {how' : BuildEnd}
    (hend : .finish i how ∈ is) (hend' : .finish i how' ∈ is) : how = how' := by
  obtain ⟨entries, hstories⟩ := htold
  have hmem := mem_endsIn.2 hend
  have hmem' := mem_endsIn.2 hend'
  rcases hstories.isOver hover i with hnone | ⟨b, input, how₀, hstory⟩
  · have hends : endsIn i is = [] := congrArg Call.Story.ends hnone
    rw [hends] at hmem
    cases hmem
  · have hends : endsIn i is = [how₀] := congrArg Call.Story.ends hstory
    rw [hends] at hmem hmem'
    exact (List.mem_singleton.1 hmem).trans (List.mem_singleton.1 hmem').symm

/-- What the builder was asked has ended. -/
theorem Told.ended_of_over (htold : Told o s is fx) (hover : s.isOver = true) {b : Selector}
    {input : BuildInput} (hask : .build b i input ∈ fx) : ∃ how, .finish i how ∈ is := by
  obtain ⟨entries, hstories⟩ := htold
  have hmem := mem_asked.2 hask
  rcases hstories.isOver hover i with hnone | ⟨b', input', how, hstory⟩
  · have hasks : asked i fx = [] := congrArg Call.Story.asks hnone
    rw [hasks] at hmem
    cases hmem
  · have hends : endsIn i is = [how] := congrArg Call.Story.ends hstory
    exact ⟨how, mem_endsIn.1 (by simp [hends])⟩

/-- **The outcome of a stage that is over** is attributed to its cause. -/
theorem Watched.attributed (h : Watched s₀ is canceled s) (htold : Told o s is fx)
    (hover : s.isOver = true) : Attributed s₀.units is canceled (s.outcome canceled) := by
  cases h.blamed with
  | nobody hnone hclean hgood =>
    have hnot : ¬ SomeFailed is := by
      rintro ⟨i, how, hend, hfailed⟩
      obtain ⟨out, hout⟩ := hgood i (h.joined_of_over htold hover hend)
      rw [htold.ends_unique hover hend hout] at hfailed
      cases hfailed
    have hok : ∃ builds, s.outcome canceled = .ok builds := by
      rw [outcome, hnone]
      exact ⟨_, rfl⟩
    exact ⟨⟨fun _ => hnot, fun _ => hok⟩, fun hsome => absurd hsome hnot,
      fun hsome => absurd hsome hnot⟩
  | first hfirst hunit hf hblame =>
    have hsome := hfirst.someFailed
    refine ⟨⟨fun hok => ?_, fun hnot => absurd hsome hnot⟩, fun _ hc => ?_, fun _ hc => ?_⟩
    · obtain ⟨builds, hok⟩ := hok
      rw [outcome, hf] at hok
      cases hok
    · obtain ⟨rfl, hne⟩ := hblame hc
      refine ⟨_, _, _, hfirst, hne, hunit, ?_⟩
      rw [outcome, hf, hc]
      rfl
    · rw [outcome, hf, hc]
      rfl

end BuildStage

end Conductor
