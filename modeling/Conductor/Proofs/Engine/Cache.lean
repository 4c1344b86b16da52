import Conductor.Proofs.Engine.BuildStage
import Conductor.Proofs.Engine.Step
import Conductor.Proofs.Table
import Mathlib.Data.List.Forall2
/-!
# Engine — what the cache holds

An engine builds for one call after the other, and remembers what it has built by
fingerprint. The builders here are functions of what they are asked for
(`Workshop`), so that a call has one right answer, the one that it gets of an
engine that remembers nothing.

`StageSound` is what holds of a build stage at every point: which units were
found, what became of those that were not, and which entries of the ledger are
its own. From its step lemmas follow what the result of a build is
(`Call.Alone.built`) and where every entry of the ledger comes from
(`Call.History.entry_made`).
-/

namespace Conductor

/-- What the result of a build may depend on. -/
structure BuildRequest where
  plan : String
  source : String
  selectors : List String
  dependencies : Table String
  config : Json

/-- What a builder is asked for, whatever the number of the build and its groups are. -/
def BuildInput.request (b : BuildInput) : BuildRequest :=
  ⟨b.plan, b.source, b.selectors, b.dependencies, b.config⟩

/-- How the build of each request ends, with each builder. -/
abbrev Workshop := Selector → BuildRequest → BuildEnd

namespace BuildStage

/-- The units that a stage was planned with. -/
def units (s : BuildStage) : List BuildUnit := s.slots.map BuildSlot.unit

/-- What the builder is asked for a unit. -/
def requestOf (s : BuildStage) (u : BuildUnit) : BuildRequest := (s.inputOf u 0).request

/-- The result is that of the unit's own build. -/
def Builds (w : Workshop) (s : BuildStage) (u : BuildUnit) (r : BuildResult) : Prop :=
  ∃ out, w s.builder (s.requestOf u) = .returned (.ok out) ∧ r = s.resultOf u out

/-- The result is that of a unit with the fingerprint given. -/
def Made (w : Workshop) (s : BuildStage) (fingerprint : String) (r : BuildResult) : Prop :=
  ∃ u ∈ s.units, u.fingerprint = fingerprint ∧ s.Builds w u r

/-- The result of a unit: the one found in the ledger, or that of its own build. -/
def Gives (w : Workshop) (l : Ledger) (s : BuildStage) (u : BuildUnit) (r : BuildResult) : Prop :=
  (∃ hit, l.cache.get? u.fingerprint = some hit ∧ r = hit.forGroups u.groupIds) ∨
    l.cache.get? u.fingerprint = none ∧ s.Builds w u r

/-- A unit is not found in the ledger, and its own build fails. -/
def Fails (w : Workshop) (l : Ledger) (s : BuildStage) (u : BuildUnit) : Prop :=
  l.cache.get? u.fingerprint = none ∧ ∀ r, ¬ s.Builds w u r

/-- What the progress of a unit says, in a stage that was planned as `s₀` and began
with the ledger `l₀`: a build ends as the workshop says, or gives up because the
builds are canceled. -/
def SlotSound (w : Workshop) (l₀ : Ledger) (s₀ : BuildStage) (canceled : Bool)
    (failure : Option BuildFailure) (slot : BuildSlot) : Prop :=
  match slot.progress with
  | .planned => True
  | .missing => l₀.cache.get? slot.unit.fingerprint = none
  | .building _ => l₀.cache.get? slot.unit.fingerprint = none
  | .ended _ how => l₀.cache.get? slot.unit.fingerprint = none ∧
      (how = w s₀.builder (s₀.requestOf slot.unit) ∨
        how = .returned (.error .canceled) ∧ (canceled = true ∨ failure ≠ none))
  | .joined (some r) => s₀.Gives w l₀ slot.unit r
  | .joined none => failure ≠ none

/-- **What holds of a stage** planned as `s₀` that began with the ledger `l₀`, while no
other call is under way. -/
structure StageSound (w : Workshop) (l₀ : Ledger) (s₀ : BuildStage) (l : Ledger)
    (canceled : Bool) (s : BuildStage) : Prop where
  same : SamePlan s₀ s
  slots : ∀ slot ∈ s.slots, SlotSound w l₀ s₀ canceled s.failure slot
  /-- Nothing is entered before the last unit has been looked for. -/
  cache : s.isLaunched = false → l.cache = l₀.cache
  entries : ∀ fp r, l.cache.get? fp = some r → l₀.cache.get? fp = some r ∨ s₀.Made w fp r
  stopped : s.canceled = true → s.failure ≠ none
  /-- Unless the run is canceled, a failure is that of a unit. -/
  blamed : canceled = false → s.failure ≠ none → ∃ u ∈ s₀.units, s₀.Fails w l₀ u

variable {w : Workshop} {l₀ l l' : Ledger} {s₀ s s' : BuildStage} {canceled canceled' : Bool}
  {failure failure' : Option BuildFailure} {slot : BuildSlot} {i : Nat} {fx : List Effect}

theorem SamePlan.units_eq (h : SamePlan s₀ s) : s.units = s₀.units := h.units

theorem SamePlan.requestOf (h : SamePlan s₀ s) (u : BuildUnit) :
    s.requestOf u = s₀.requestOf u := by
  simp only [BuildStage.requestOf, inputOf, BuildInput.request, h.plan, h.source]

theorem SamePlan.resultOf (h : SamePlan s₀ s) (u : BuildUnit) (out : BuildOutput) :
    s.resultOf u out = s₀.resultOf u out := by
  simp only [BuildStage.resultOf, h.builder]

/-- A unit of the stage is one that it was planned with. -/
theorem SamePlan.mem_units {u : BuildUnit} {p : UnitProgress} (h : SamePlan s₀ s)
    (hu : s.slots[i]? = some ⟨u, p⟩) : u ∈ s₀.units := by
  rw [← h.units_eq]
  exact List.mem_map_of_mem (f := BuildSlot.unit) (List.mem_of_getElem? hu)

/-- What is said of a unit stays true when the builds are canceled. -/
theorem SlotSound.mono (h : SlotSound w l₀ s₀ canceled failure slot)
    (hc : canceled = true → canceled' = true) (hf : failure ≠ none → failure' ≠ none) :
    SlotSound w l₀ s₀ canceled' failure' slot := by
  unfold SlotSound at h ⊢
  split
  · trivial
  · rename_i hp
    rwa [hp] at h
  · rename_i hp
    rwa [hp] at h
  · rename_i hp
    rw [hp] at h
    obtain ⟨hmiss, hhow | ⟨hhow, hstop⟩⟩ := h
    · exact ⟨hmiss, .inl hhow⟩
    · exact ⟨hmiss, .inr ⟨hhow, hstop.imp hc hf⟩⟩
  · rename_i hp
    rwa [hp] at h
  · rename_i hp
    rw [hp] at h
    exact hf h

namespace StageSound

/-- A stage that begins. -/
theorem start (hnew : ∀ slot ∈ s₀.slots, slot.progress = .planned) (hc : s₀.canceled = false)
    (hf : s₀.failure = none) : StageSound w l₀ s₀ l₀ canceled s₀ where
  same := .refl s₀
  slots := by
    intro slot hslot
    unfold SlotSound
    rw [hnew slot hslot]
    trivial
  cache := fun _ => rfl
  entries := fun _ _ h => .inl h
  stopped := fun h => by rw [hc] at h; cases h
  blamed := fun _ h => absurd hf h

/-- The run is canceled. -/
theorem cancel (h : StageSound w l₀ s₀ l canceled s) : StageSound w l₀ s₀ l true s :=
  { h with
    slots := fun slot hslot => (h.slots slot hslot).mono (fun _ => rfl) id
    blamed := fun hc => by cases hc }

/-- A unit moves on, and nothing is entered. -/
theorem put (h : StageSound w l₀ s₀ l canceled s) {u : BuildUnit} {p q : UnitProgress}
    (hslot : s.slots[i]? = some ⟨u, q⟩) (hl : l'.cache = l.cache)
    (hlaunched : (s.put i p).isLaunched = false → s.isLaunched = false)
    (hnew : SlotSound w l₀ s₀ canceled s.failure ⟨u, p⟩) :
    StageSound w l₀ s₀ l' canceled (s.put i p) where
  same := h.same.trans samePlan_put
  slots := forall_put_of hslot h.slots hnew
  cache := fun hput => hl.trans (h.cache (hlaunched hput))
  entries := fun fp r hr => h.entries fp r (hl ▸ hr)
  stopped := h.stopped
  blamed := h.blamed

/-- **The stage goes on** by itself. -/
theorem proceed (h : StageSound w l₀ s₀ l canceled s) (step : s.proceed l = some (s', l', fx)) :
    StageSound w l₀ s₀ l' canceled s' := by
  rcases proceed_cases step with ⟨i, u, hit, hslot, hget, rfl, rfl, -⟩ |
    ⟨i, u, hslot, hget, rfl, rfl, -⟩ | ⟨i, u, hslot, rfl, rfl, -⟩
  · -- what the unit finds was there when the stage began
    have hwait : s.isLaunched = false := not_isLaunched hslot (.inl rfl)
    rw [h.cache hwait] at hget
    exact h.put hslot rfl (fun _ => hwait) (.inl ⟨hit, hget, rfl⟩)
  · have hwait : s.isLaunched = false := not_isLaunched hslot (.inl rfl)
    rw [h.cache hwait] at hget
    exact h.put hslot rfl (fun _ => hwait) hget
  · have hmiss := h.slots _ (List.mem_of_getElem? hslot)
    exact h.put hslot rfl (fun _ => not_isLaunched hslot (.inr rfl)) hmiss

/-- The task of a unit ends. -/
theorem finish (h : StageSound w l₀ s₀ l canceled s) {how : BuildEnd}
    (step : s.finish i how = some (s', fx))
    (obeys : ∀ u p, s.slots[i]? = some ⟨u, p⟩ → how = w s.builder (s.requestOf u) ∨
      how = .returned (.error .canceled) ∧ (canceled = true ∨ s.canceled = true)) :
    StageSound w l₀ s₀ l canceled s' := by
  obtain ⟨u, n, _, hslot, rfl, -⟩ := finish_cases step
  have hmiss := h.slots _ (List.mem_of_getElem? hslot)
  refine h.put hslot rfl (fun hput => Bool.eq_false_iff.2 fun hl => ?_) ⟨hmiss, ?_⟩
  · rw [isLaunched_put hl rfl rfl] at hput
    cases hput
  · -- what the builder was asked is what the plan asks for
    rcases obeys u _ hslot with hhow | ⟨hhow, hstop⟩
    · rw [h.same.requestOf, h.same.builder] at hhow
      exact .inl hhow
    · exact .inr ⟨hhow, hstop.imp_right h.stopped⟩

/-- **A unit is joined.** -/
theorem join (h : StageSound w l₀ s₀ l canceled s) (step : s.join l i = some (s', l')) :
    StageSound w l₀ s₀ l' canceled s' := by
  obtain ⟨hlaunched, u, n, how, hslot, hcase⟩ := join_cases step
  obtain ⟨hmiss, hhow⟩ := h.slots _ (List.mem_of_getElem? hslot)
  have hu : u ∈ s₀.units := h.same.mem_units hslot
  rcases hcase with ⟨out, rfl, rfl, rfl⟩ | ⟨failure, hbad, rfl, rfl⟩
  · have hbuilds : s₀.Builds w u (s.resultOf u out) := by
      refine ⟨out, ?_, h.same.resultOf u out⟩
      rcases hhow with hhow | ⟨hhow, -⟩
      · exact hhow.symm
      · cases hhow
    -- the result is entered under the fingerprint of a unit that it was made for
    refine
      { same := h.same.trans samePlan_put
        slots := forall_put_of hslot h.slots (.inr ⟨hmiss, hbuilds⟩)
        cache := fun hput => ?_
        entries := fun fp r hr => ?_
        stopped := h.stopped
        blamed := h.blamed }
    · rw [isLaunched_put hlaunched rfl rfl] at hput
      cases hput
    · simp only [Ledger.enter, Table.get?_insert] at hr
      split at hr
      · rename_i hfp
        cases hr
        exact .inr ⟨u, hu, hfp.symm, hbuilds⟩
      · exact h.entries fp r hr
  · refine
      { same := ⟨h.same.builder, h.same.plan, h.same.source, units_put.trans h.same.units⟩
        slots := forall_put (fun slot hslot' => (h.slots slot hslot').mono id fun _ => by simp)
          fun slot hslot' => by simp [SlotSound]
        cache := fun hput => ?_
        entries := h.entries
        stopped := fun _ => by simp
        blamed := fun hc _ => ?_ }
    · have := isLaunched_put (i := i) hlaunched (p := .joined none) rfl rfl
      rw [← Bool.not_eq_true] at hput
      exact absurd this hput
    · -- a build that gave up was canceled by the run, or by a failure before it
      rcases hhow with hhow | ⟨-, hstop⟩
      · refine ⟨u, hu, hmiss, ?_⟩
        rintro r ⟨out, hout, -⟩
        exact hbad out (hhow.trans hout)
      · rcases hstop with hstop | hfailed
        · rw [hstop] at hc
          cases hc
        · exact h.blamed hc hfailed

/-- Where all units are joined and none failed, the results are theirs. -/
theorem gives (h : StageSound w l₀ s₀ l canceled s) (hover : s.isOver = true)
    (hf : s.failure = none) :
    List.Forall₂ (s₀.Gives w l₀) s₀.units
      (s.slots.filterMap fun slot => slot.progress.result?) := by
  have hslots := h.slots
  rw [← h.same.units_eq, BuildStage.units]
  rw [isOver, List.all_eq_true] at hover
  rw [hf] at hslots
  -- from here on only the slots matter, and the induction is on them
  generalize s.slots = slots at hover hslots
  induction slots with
  | nil => exact .nil
  | cons slot slots ih =>
    have hslot := hslots slot (List.mem_cons_self ..)
    have hjoined := hover slot (List.mem_cons_self ..)
    obtain ⟨u, progress⟩ := slot
    cases progress with
    | joined r =>
      cases r with
      | some r =>
        exact .cons hslot (ih (fun x hx => hover x (List.mem_cons_of_mem _ hx))
          fun x hx => hslots x (List.mem_cons_of_mem _ hx))
      | none => exact absurd rfl hslot
    | planned => cases hjoined
    | missing => cases hjoined
    | building n => cases hjoined
    | ended n how => cases hjoined

end StageSound

end BuildStage

namespace Call

variable {e : Engine} {w : Workshop} {l₀ l l' : Ledger} {c c' c₀ : Call} {i : CallInput}
  {fx : List Effect} {s₀ : BuildStage} {comp : Composition} {o : CallOptions}
  {runId : String} {canceled : Bool}

/-! ## Calls, one at a time -/

/-- The call that a build without a run begins as. -/
def buildOnly (e : Engine) (runId : String) (canceled : Bool) (comp : Composition)
    (o : CallOptions) : Call :=
  (start e runId canceled (.build comp o)).1

/-- The stage in which the builds of a composition begin. -/
def Plans (e : Engine) (comp : Composition) (o : CallOptions) (s : BuildStage) : Prop :=
  beginBuild e false comp o = .ok (.building none s)

/-- A build ends as the workshop says, or gives up because the builds are canceled. -/
def Obeys (w : Workshop) (c : Call) : CallInput → Prop
  | .finish unit how => ∀ o s u p, c.phase = .building o s → s.slots[unit]? = some ⟨u, p⟩ →
      how = w s.builder (s.requestOf u) ∨
        how = .returned (.error .canceled) ∧ c.buildsCanceled = true
  | _ => True

/-- A call on its way, and the ledger, while no other call is under way. -/
inductive Alone (e : Engine) (w : Workshop) (l₀ : Ledger) (c₀ : Call) : Ledger → Call → Prop
  | start : Alone e w l₀ c₀ l₀ c₀
  | next {l l' : Ledger} {c c' : Call} {i : CallInput} {fx : List Effect} :
    Alone e w l₀ c₀ l c → Obeys w c i → c.step e l i = some (l', c', fx) → Alone e w l₀ c₀ l' c'

/-- The ledger behind a sequence of builds, each of which had its result before the
next began. -/
inductive History (e : Engine) (w : Workshop) : List (Composition × CallOptions) → Ledger → Prop
  | start : History e w [] .empty
  | next {past : List (Composition × CallOptions)} {l l' : Ledger} {runId : String}
    {canceled : Bool} {comp : Composition} {o : CallOptions} {c : Call}
    {r : Except OrchestrationError Answer} :
    History e w past l → Alone e w l (buildOnly e runId canceled comp o) l' c →
      c.phase = .finished r → History e w (past ++ [(comp, o)]) l'

/-- The result of a build without a run: the results of all units, or an error that
one of them is to blame for, unless the run was canceled. -/
def IsResult (w : Workshop) (l₀ : Ledger) (s₀ : BuildStage) (canceled : Bool)
    (r : Except OrchestrationError Answer) : Prop :=
  (∃ bs, r = .ok (.builds bs) ∧ List.Forall₂ (s₀.Gives w l₀) s₀.units bs) ∨
    (∃ error, r = .error error) ∧ (canceled = false → ∃ u ∈ s₀.units, s₀.Fails w l₀ u)

/-- **What holds of a build** without a run that was planned as `s₀` and began with the
ledger `l₀`. -/
def Built (w : Workshop) (l₀ : Ledger) (s₀ : BuildStage) (l : Ledger) (c : Call) : Prop :=
  match c.phase with
  | .building o s => o = none ∧ s₀.StageSound w l₀ l c.canceled s
  | .finished r => IsResult w l₀ s₀ c.canceled r ∧
      ∀ fp r, l.cache.get? fp = some r → l₀.cache.get? fp = some r ∨ s₀.Made w fp r
  | _ => False

/-- The end of the stage is the result. -/
theorem isResult_conclude {s : BuildStage} (h : s₀.StageSound w l₀ l c.canceled s)
    (hover : s.isOver = true) :
    ∃ r, (c.concludeBuilds e none s).1 = c.enter (.finished r) ∧
      IsResult w l₀ s₀ c.canceled r := by
  unfold concludeBuilds BuildStage.outcome
  cases hf : s.failure with
  | some failure =>
    exact ⟨_, rfl, .inr ⟨⟨_, rfl⟩, fun hc => h.blamed hc (by simp [hf])⟩⟩
  | none => exact ⟨_, rfl, .inl ⟨_, rfl, h.gives hover hf⟩⟩

/-- What holds of a call holds of it in the phase that it is in. -/
theorem Built.enter {p : CallPhase} (h : Built w l₀ s₀ l c) (hphase : c.phase = p) :
    Built w l₀ s₀ l (c.enter p) := hphase ▸ h

/-- A result stays one when the run is canceled. -/
theorem IsResult.cancel {r : Except OrchestrationError Answer}
    (h : IsResult w l₀ s₀ canceled r) : IsResult w l₀ s₀ true r :=
  h.imp id fun h => ⟨h.1, fun hc => by cases hc⟩

/-- **The step lemma.** -/
theorem Step.built (h : Step e l c i l' c' fx) (obeys : Obeys w c i) (hb : Built w l₀ s₀ l c) :
    Built w l₀ s₀ l' c' := by
  cases h with
  | cancel =>
    unfold Built at hb ⊢
    dsimp only
    split at hb
    · exact ⟨hb.1, hb.2.cancel⟩
    · exact ⟨hb.1.cancel, hb.2⟩
    · exact hb.elim
  | build hphase hs => exact ⟨(hb.enter hphase).1, (hb.enter hphase).2.proceed hs⟩
  | @conclude o s hphase _ hover =>
    obtain ⟨rfl, hsound⟩ : o = none ∧ s₀.StageSound w l₀ l c.canceled s := hb.enter hphase
    obtain ⟨r, hr, hresult⟩ := isResult_conclude (e := e) hsound hover
    rw [hr]
    exact ⟨hresult, hsound.entries⟩
  | @finish o s s' unit how fx hphase hs =>
    obtain ⟨ho, hsound⟩ := hb.enter hphase
    refine ⟨ho, hsound.finish hs fun u p hslot => ?_⟩
    have hhow := obeys o s u p hphase hslot
    rwa [buildsCanceled, hphase, Bool.or_eq_true] at hhow
  | join hphase hs => exact ⟨(hb.enter hphase).1, (hb.enter hphase).2.join hs⟩
  | collect => exact hb
  | hangUp => exact hb
  -- a build without a run is in none of the other phases
  | report hphase => exact (hb.enter hphase).elim
  | pass hphase => exact (hb.enter hphase).elim
  | healthy hphase => exact (hb.enter hphase).elim
  | unhealthy hphase => exact (hb.enter hphase).elim
  | returned hphase => exact (hb.enter hphase).elim

/-- A stage begins with nothing looked for and nothing canceled, and not at all when
the run is canceled. -/
theorem beginBuild_cases {phase : CallPhase} (h : beginBuild e canceled comp o = .ok phase) :
    ∃ s, phase = .building none s ∧ Plans e comp o s ∧ canceled = false ∧
      (∀ slot ∈ s.slots, slot.progress = .planned) ∧ s.canceled = false ∧ s.failure = none := by
  have h' := h
  unfold beginBuild planned at h
  cases hv : comp.validateForBuild.mapError OrchestrationError.validation with
  | error error => rw [hv] at h; cases h
  | ok v =>
    rw [hv] at h
    cases hb : (e.registry.builder v.builder).mapError OrchestrationError.unknownSelector with
    | error error => simp only [bind, Except.bind, hb] at h; cases h
    | ok b =>
      cases hu : e.planBuilds v b with
      | error error => simp only [bind, Except.bind, hb, hu] at h; cases h
      | ok units =>
        cases canceled with
        | true => simp only [bind, Except.bind, hb, hu] at h; cases h
        | false =>
          simp only [bind, Except.bind, hb, hu] at h
          cases h
          refine ⟨_, rfl, h', rfl, ?_, rfl, rfl⟩
          simp [BuildStage.ofPlan]

/-- A build that cannot begin is over at once. -/
theorem buildOnly_of_error {error : OrchestrationError}
    (h : beginBuild e canceled comp o = .error error) :
    (buildOnly e runId canceled comp o).phase = .finished (.error error) := by
  simp only [buildOnly, Call.start, h, opened]

theorem buildOnly_of_ok {phase : CallPhase} (h : beginBuild e canceled comp o = .ok phase) :
    buildOnly e runId canceled comp o = opened runId canceled false phase := by
  simp only [buildOnly, Call.start, h]

/-- A call that has its result leaves the ledger alone. -/
theorem Alone.finished {r : Except OrchestrationError Answer} (h : Alone e w l₀ c₀ l c)
    (hphase : c₀.phase = .finished r) : c.phase = .finished r ∧ l = l₀ := by
  induction h with
  | start => exact ⟨hphase, rfl⟩
  | next _ _ step ih =>
    obtain ⟨hc, rfl⟩ := ih
    exact (Step.of_step step).finished hc

/-- **The run lemma**: what holds of a build that is planned holds at every point. -/
theorem Alone.built (h : Alone e w l₀ (buildOnly e runId false comp o) l c)
    (hplans : Plans e comp o s₀) : Built w l₀ s₀ l c := by
  obtain ⟨s, hphase, -, -, hnew, hc, hf⟩ := beginBuild_cases hplans
  cases hphase
  induction h with
  | start =>
    rw [buildOnly_of_ok hplans]
    exact ⟨rfl, .start hnew hc hf⟩
  | next _ obeys step ih => exact (Step.of_step step).built obeys ih

/-- A build is planned, or it was over at once. -/
theorem Alone.planned (h : Alone e w l₀ (buildOnly e runId canceled comp o) l c) :
    (canceled = false ∧ ∃ s₀, Plans e comp o s₀) ∨
      (∃ error, c.phase = .finished (.error error)) ∧ l = l₀ := by
  cases hbegin : beginBuild e canceled comp o with
  | error error =>
    obtain ⟨hphase, hl⟩ := h.finished (buildOnly_of_error hbegin)
    exact .inr ⟨⟨error, hphase⟩, hl⟩
  | ok phase =>
    obtain ⟨s₀, -, hplans, hc, -⟩ := beginBuild_cases hbegin
    exact .inl ⟨hc, s₀, hplans⟩

/-- **Every entry was made**: what the ledger holds under a fingerprint is the result of
a unit with that fingerprint, of one of the calls before. -/
theorem History.entry_made {past : List (Composition × CallOptions)} (h : History e w past l)
    {fp : String} {r : BuildResult} (hr : l.cache.get? fp = some r) :
    ∃ q ∈ past, ∃ s, Plans e q.1 q.2 s ∧ s.Made w fp r := by
  induction h with
  | start => cases hr
  | @next past l l' runId canceled comp o c result _ call hphase ih =>
    have earlier : l.cache.get? fp = some r →
        ∃ q ∈ past ++ [(comp, o)], ∃ s, Plans e q.1 q.2 s ∧ s.Made w fp r := by
      intro hold
      obtain ⟨q, hq, hs⟩ := ih hold
      exact ⟨q, List.mem_append_left _ hq, hs⟩
    -- a call that could not be planned has entered nothing
    rcases call.planned with ⟨rfl, s₀, hplans⟩ | ⟨-, rfl⟩
    · have hbuilt := call.built hplans
      unfold Built at hbuilt
      rw [hphase] at hbuilt
      rcases hbuilt.2 fp r hr with hold | hmade
      · exact earlier hold
      · exact ⟨(comp, o), by simp, s₀, hplans, hmade⟩
    · exact earlier hr

end Call

end Conductor
