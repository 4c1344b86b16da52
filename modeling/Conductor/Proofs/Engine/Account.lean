import Conductor.Proofs.Engine.Cache
/-!
# Engine — the account of a build stage

A build stage that has the ledger to itself takes its steps in any order: it goes on by
itself, builds end, and units are joined (`BuildStage.Course`). What it has asked of the
builder is accounted for unit by unit (`BuildStage.Accounted`): nothing for a unit that
was in the ledger when the stage began, and for every other unit its input, once. From
the account follow the results of a stage that is over, and that they are those of the
units in their order, whatever the order of the steps was (`Accounted.results`).
-/

namespace Conductor

/-- What a builder is asked for the unit at a place. -/
def Effect.asks (i : Nat) : Effect → Option (Selector × BuildInput)
  | .build b j input => if j = i then some (b, input) else none
  | _ => none

/-- How the builds that get some input may end. -/
abbrev BuildRule := BuildInput → BuildEnd → Prop

namespace BuildStage

/-- What builders were asked for the unit at a place, in the order in which they were. -/
def asked (i : Nat) (fx : List Effect) : List (Selector × BuildInput) :=
  fx.filterMap (Effect.asks i)

/-- A stage behind a number of steps, with the ledger and the effects. No other call
changes the ledger, and builds end as the rule says. -/
inductive Course (rule : BuildRule) (l₀ : Ledger) (s₀ : BuildStage) :
    Nat → Ledger → BuildStage → List Effect → Prop
  | start : Course rule l₀ s₀ 0 l₀ s₀ []
  | proceed {n : Nat} {l l' : Ledger} {s s' : BuildStage} {fx more : List Effect} :
    Course rule l₀ s₀ n l s fx → s.proceed l = some (s', l', more) →
      Course rule l₀ s₀ (n + 1) l' s' (fx ++ more)
  | finish {n i build : Nat} {l : Ledger} {s s' : BuildStage} {fx more : List Effect}
    {u : BuildUnit} {how : BuildEnd} :
    Course rule l₀ s₀ n l s fx → s.slots[i]? = some ⟨u, .building build⟩ →
      rule (s.inputOf u build) how → s.finish i how = some (s', more) →
      Course rule l₀ s₀ (n + 1) l s' (fx ++ more)
  | join {n i : Nat} {l l' : Ledger} {s s' : BuildStage} {fx : List Effect} :
    Course rule l₀ s₀ n l s fx → s.join l i = some (s', l') →
      Course rule l₀ s₀ (n + 1) l' s' fx

/-- What was asked for a unit, of which this is known: it is not in the ledger `l₀`, and
its build, if it has ended, has done so as the rule says. -/
def AskedOnce (l₀ : Ledger) (s₀ : BuildStage) (u : BuildUnit)
    (asks : List (Selector × BuildInput)) (ended : BuildInput → Prop) : Prop :=
  l₀.cache.get? u.fingerprint = none ∧
    ∃ n, asks = [(s₀.builder, s₀.inputOf u n)] ∧ ended (s₀.inputOf u n)

/-- A unit that was in the ledger `l₀`, for which nothing was asked. -/
def AskedNever (l₀ : Ledger) (u : BuildUnit) (asks : List (Selector × BuildInput))
    (r : BuildResult) : Prop :=
  asks = [] ∧ ∃ hit, l₀.cache.get? u.fingerprint = some hit ∧ r = hit.forGroups u.groupIds

/-- A unit with its result: the one found in the ledger `l₀`, or that of its build. -/
def Settled (rule : BuildRule) (l₀ : Ledger) (s₀ : BuildStage) (u : BuildUnit)
    (asks : List (Selector × BuildInput)) (r : BuildResult) : Prop :=
  AskedNever l₀ u asks r ∨ AskedOnce l₀ s₀ u asks fun input =>
    ∃ out, rule input (.returned (.ok out)) ∧ r = s₀.resultOf u out

/-- What the progress of a unit says of what was asked for it. -/
def SlotAccounted (rule : BuildRule) (l₀ : Ledger) (s₀ : BuildStage) (slot : BuildSlot)
    (asks : List (Selector × BuildInput)) : Prop :=
  match slot.progress with
  | .planned => asks = []
  | .missing => l₀.cache.get? slot.unit.fingerprint = none ∧ asks = []
  | .building n => l₀.cache.get? slot.unit.fingerprint = none ∧
      asks = [(s₀.builder, s₀.inputOf slot.unit n)]
  | .ended n how => l₀.cache.get? slot.unit.fingerprint = none ∧
      asks = [(s₀.builder, s₀.inputOf slot.unit n)] ∧ rule (s₀.inputOf slot.unit n) how
  | .joined (some r) => Settled rule l₀ s₀ slot.unit asks r
  | .joined none => AskedOnce l₀ s₀ slot.unit asks fun input =>
      ∃ how, rule input how ∧ ∀ out, how ≠ .returned (.ok out)

/-- **The account** of a stage planned as `s₀` that began with the ledger `l₀`. -/
structure Accounted (rule : BuildRule) (l₀ : Ledger) (s₀ : BuildStage) (l : Ledger)
    (s : BuildStage) (fx : List Effect) : Prop where
  same : SamePlan s₀ s
  slots : ∀ i slot, s.slots[i]? = some slot → SlotAccounted rule l₀ s₀ slot (asked i fx)
  /-- Nothing is asked for a unit that there is not. -/
  beyond : ∀ i, s.slots[i]? = none → asked i fx = []
  /-- Nothing is entered before the last unit has been looked for. -/
  cache : s.isLaunched = false → l.cache = l₀.cache
  /-- Nothing is entered at all when every unit is found. -/
  untouched : (∀ u ∈ s₀.units, l₀.cache.get? u.fingerprint ≠ none) →
    l.cache = l₀.cache ∧ l.metrics.buildsExecuted = l₀.metrics.buildsExecuted
  /-- The stage has a failure when a unit has no result. -/
  blamed : s.failure ≠ none ↔ ∃ (i : Nat) (u : BuildUnit), s.slots[i]? = some ⟨u, .joined none⟩

variable {rule : BuildRule} {l₀ l l' : Ledger} {s₀ s s' : BuildStage} {fx more : List Effect}
  {i j n build : Nat} {u : BuildUnit} {p q : UnitProgress} {how : BuildEnd} {canceled : Bool}
  {failure : Option BuildFailure} {e : Engine} {v : ValidComposition} {b : Builder}
  {o : CallOptions}

/-! ## The beginning -/

/-- A plan becomes a stage in which nothing has happened. -/
theorem planned_cases (h : Call.planned e canceled v b o = .ok s) :
    canceled = false ∧ e.planBuilds v b = .ok s.units ∧ s.builder = b.id ∧
      (∀ slot ∈ s.slots, slot.progress = .planned) ∧ s.canceled = false ∧ s.failure = none := by
  unfold Call.planned at h
  cases hplan : e.planBuilds v b with
  | error error => rw [hplan] at h; cases h
  | ok units =>
    cases canceled with
    | true => rw [hplan] at h; cases h
    | false =>
      rw [hplan] at h
      cases h
      refine ⟨rfl, ?_, rfl, by simp [ofPlan], rfl, rfl⟩
      simp [ofPlan, BuildStage.units, Function.comp_def]

/-! ## Asking -/

@[simp] theorem asked_nil : asked i [] = [] := rfl

@[simp] theorem asked_append : asked i (fx ++ more) = asked i fx ++ asked i more :=
  List.filterMap_append

/-- What a builder was asked for a unit. -/
theorem mem_asked {b : Selector} {input : BuildInput} :
    (b, input) ∈ asked i fx ↔ .build b i input ∈ fx := by
  constructor
  · intro h
    obtain ⟨x, hx, hasks⟩ := List.mem_filterMap.1 h
    cases x with
    | build b' k input' =>
      simp only [Effect.asks, Option.ite_none_right_eq_some, Option.some.injEq,
        Prod.mk.injEq] at hasks
      obtain ⟨rfl, rfl, rfl⟩ := hasks
      exact hx
    | _ => cases hasks
  · exact fun h => List.mem_filterMap.2 ⟨_, h, by simp [Effect.asks]⟩

/-- What is only reported asks for nothing. -/
@[simp] theorem asked_events (told : List LifecycleEvent) : asked i (told.map .event) = [] := by
  simp [asked, Effect.asks, List.filterMap_map]

@[simp] theorem asked_event (told : LifecycleEvent) : asked i [.event told] = [] := rfl

/-- A start asks for its own unit. -/
theorem asked_launch (told : LifecycleEvent) (b : Selector) (input : BuildInput) :
    asked j [.event told, .build b i input] = if i = j then [(b, input)] else [] := by
  simp only [asked, Effect.asks, List.filterMap_cons, List.filterMap_nil]
  split <;> simp_all

theorem SamePlan.inputOf (h : SamePlan s₀ s) (u : BuildUnit) (n : Nat) :
    s.inputOf u n = s₀.inputOf u n := by
  simp only [BuildStage.inputOf, h.plan, h.source]

/-! ## The account is kept -/

namespace Accounted

/-- A stage that begins. -/
theorem start (hnew : ∀ slot ∈ s₀.slots, slot.progress = .planned) (hf : s₀.failure = none) :
    Accounted rule l₀ s₀ l₀ s₀ [] where
  same := .refl s₀
  slots := by
    intro i slot hslot
    unfold SlotAccounted
    rw [hnew slot (List.mem_of_getElem? hslot)]
    rfl
  beyond := fun _ _ => rfl
  cache := fun _ => rfl
  untouched := fun _ => ⟨rfl, rfl⟩
  blamed := by
    refine iff_of_false (fun h => h hf) ?_
    rintro ⟨i, u, hi⟩
    cases hnew _ (List.mem_of_getElem? hi)

/-- A unit that is missed keeps the ledger from having all. -/
theorem missed (h : Accounted rule l₀ s₀ l s fx) (hslot : s.slots[i]? = some ⟨u, q⟩)
    (hmiss : l₀.cache.get? u.fingerprint = none) :
    ¬ ∀ u ∈ s₀.units, l₀.cache.get? u.fingerprint ≠ none :=
  fun hall => hall u (h.same.mem_units hslot) hmiss

/-- One unit moves on, and what is asked meanwhile is for it. -/
theorem put (h : Accounted rule l₀ s₀ l s fx) (hslot : s.slots[i]? = some ⟨u, q⟩)
    (hq : q ≠ .joined none) (hothers : ∀ j, i ≠ j → asked j more = [])
    (hnew : SlotAccounted rule l₀ s₀ ⟨u, p⟩ (asked i (fx ++ more)))
    (hcache : (s.put i p).isLaunched = false → l'.cache = l₀.cache)
    (huntouched : (∀ u ∈ s₀.units, l₀.cache.get? u.fingerprint ≠ none) →
      l'.cache = l₀.cache ∧ l'.metrics.buildsExecuted = l₀.metrics.buildsExecuted)
    (hfailure : failure ≠ none ↔ s.failure ≠ none ∨ p = .joined none) :
    Accounted rule l₀ s₀ l' { s.put i p with canceled := canceled, failure := failure }
      (fx ++ more) where
  same := ⟨h.same.builder, h.same.plan, h.same.source, units_put.trans h.same.units⟩
  slots := by
    intro j slot hj
    rw [getElem?_put hslot] at hj
    split at hj
    · rename_i hij
      cases hj
      exact hij ▸ hnew
    · rename_i hij
      rw [asked_append, hothers j hij, List.append_nil]
      exact h.slots j slot hj
  beyond := by
    intro j hj
    rw [getElem?_put hslot] at hj
    split at hj
    · cases hj
    · rename_i hij
      rw [asked_append, hothers j hij, List.append_nil]
      exact h.beyond j hj
  cache := hcache
  untouched := huntouched
  blamed := by
    rw [hfailure, h.blamed]
    constructor
    · -- a unit that is joined without a result does not move again
      rintro (⟨j, v, hj⟩ | rfl)
      · refine ⟨j, v, ?_⟩
        rw [getElem?_put hslot, if_neg, hj]
        rintro rfl
        rw [hslot] at hj
        cases hj
        exact hq rfl
      · exact ⟨i, u, by rw [getElem?_put hslot, if_pos rfl]⟩
    · rintro ⟨j, v, hj⟩
      rw [getElem?_put hslot] at hj
      split at hj
      · cases hj
        exact .inr rfl
      · exact .inl ⟨j, v, hj⟩

/-- **The stage goes on** by itself. -/
theorem proceed (h : Accounted rule l₀ s₀ l s fx) (step : s.proceed l = some (s', l', more)) :
    Accounted rule l₀ s₀ l' s' (fx ++ more) := by
  rcases proceed_cases step with ⟨i, u, hit, hslot, hget, rfl, rfl, rfl⟩ |
    ⟨i, u, hslot, hget, rfl, rfl, rfl⟩ | ⟨i, u, hslot, rfl, rfl, rfl⟩
  · -- no unit is joined before all are launched, so what is found was there at the beginning
    have hcache := h.cache (not_isLaunched hslot (.inl rfl))
    have hasked : asked i fx = [] := h.slots i _ hslot
    rw [hcache] at hget
    refine h.put hslot nofun (fun _ _ => rfl) (.inl ⟨?_, hit, hget, rfl⟩) (fun _ => hcache)
      h.untouched (by simp)
    rw [asked_append, hasked, asked_event, List.append_nil]
  · have hcache := h.cache (not_isLaunched hslot (.inl rfl))
    have hasked : asked i fx = [] := h.slots i _ hslot
    rw [hcache] at hget
    exact h.put hslot nofun (fun _ _ => rfl) ⟨hget, by simp [hasked]⟩ (fun _ => hcache)
      h.untouched (by simp)
  · have hcache := h.cache (not_isLaunched hslot (.inr rfl))
    obtain ⟨hmiss, hasked⟩ : l₀.cache.get? u.fingerprint = none ∧ asked i fx = [] :=
      h.slots i _ hslot
    refine h.put hslot nofun (fun j hij => ?_) ⟨hmiss, ?_⟩ (fun _ => hcache)
      h.untouched (by simp)
    · rw [asked_launch, if_neg hij]
    · -- what the builder is asked is what the plan asks for
      rw [asked_append, hasked, asked_launch, if_pos rfl, h.same.builder, h.same.inputOf]
      rfl

/-- The task of a unit ends. -/
theorem finish (h : Accounted rule l₀ s₀ l s fx) (hslot : s.slots[i]? = some ⟨u, .building build⟩)
    (hrule : rule (s.inputOf u build) how) (step : s.finish i how = some (s', more)) :
    Accounted rule l₀ s₀ l s' (fx ++ more) := by
  obtain ⟨u', build', told, hslot', rfl, rfl⟩ := finish_cases step
  rw [hslot] at hslot'
  cases hslot'
  obtain ⟨hmiss, hasked⟩ : l₀.cache.get? u.fingerprint = none ∧
    asked i fx = [(s₀.builder, s₀.inputOf u build)] := h.slots i _ hslot
  rw [h.same.inputOf] at hrule
  refine h.put hslot nofun (fun _ _ => asked_events told) ⟨hmiss, ?_, hrule⟩ (fun hput => ?_)
    h.untouched (by simp)
  · rw [asked_append, hasked, asked_events]
    rfl
  · refine h.cache (Bool.eq_false_iff.2 fun hl => ?_)
    rw [isLaunched_put hl rfl rfl] at hput
    cases hput

/-- **A unit is joined.** -/
theorem join (h : Accounted rule l₀ s₀ l s fx) (step : s.join l i = some (s', l')) :
    Accounted rule l₀ s₀ l' s' fx := by
  obtain ⟨hlaunched, u, build, how, hslot, hcase⟩ := join_cases step
  obtain ⟨hmiss, hasked, hrule⟩ : l₀.cache.get? u.fingerprint = none ∧
    asked i fx = [(s₀.builder, s₀.inputOf u build)] ∧ rule (s₀.inputOf u build) how :=
      h.slots i _ hslot
  have hput : ∀ r, ¬ (s.put i (.joined r)).isLaunched = false := by
    intro r hput
    rw [isLaunched_put hlaunched rfl rfl] at hput
    cases hput
  have hnone := h.missed hslot hmiss
  rw [← List.append_nil fx]
  rcases hcase with ⟨out, rfl, rfl, rfl⟩ | ⟨failure, hbad, rfl, rfl⟩
  · refine h.put hslot nofun (fun _ _ => rfl) (.inr ⟨hmiss, build, ?_, out, hrule, ?_⟩)
      (fun hl => absurd hl (hput _)) (fun hall => absurd hall hnone) (by simp)
    · rw [List.append_nil, hasked]
    · exact h.same.resultOf u out
  · refine h.put hslot nofun (fun _ _ => rfl) ⟨hmiss, build, ?_, how, hrule, hbad⟩
      (fun hl => absurd hl (hput _)) (fun hall => absurd hall hnone) (by simp)
    rw [List.append_nil, hasked]

/-! ## The results -/

/-- What there is of results is all when every unit has one. -/
theorem filterMap_result? {slots : List BuildSlot}
    (h : ∀ slot ∈ slots, ∃ r, slot.progress = .joined (some r)) :
    (slots.filterMap fun slot => slot.progress.result?).map some =
      slots.map fun slot => slot.progress.result? := by
  induction slots with
  | nil => rfl
  | cons slot slots ih =>
    rw [List.forall_mem_cons] at h
    obtain ⟨⟨r, hr⟩, hrest⟩ := h
    have hresult : slot.progress.result? = some r := by rw [hr]; rfl
    rw [List.filterMap_cons_some (f := fun slot : BuildSlot => slot.progress.result?) hresult,
      List.map_cons, List.map_cons, ih hrest, hresult]

/-- Where the stage is over and nothing failed, every unit is joined with its result. -/
theorem joined (h : Accounted rule l₀ s₀ l s fx) (hover : s.isOver = true) (hf : s.failure = none)
    {slot : BuildSlot} (hslot : s.slots[i]? = some slot) :
    ∃ r, slot.progress = .joined (some r) ∧ Settled rule l₀ s₀ slot.unit (asked i fx) r := by
  have hjoined := List.all_eq_true.1 hover slot (List.mem_of_getElem? hslot)
  have haccount := h.slots i slot hslot
  obtain ⟨u, progress⟩ := slot
  cases progress with
  | joined r =>
    cases r with
    | some r => exact ⟨r, rfl, haccount⟩
    | none => exact absurd hf (h.blamed.2 ⟨i, u, hslot⟩)
  | planned => cases hjoined
  | missing => cases hjoined
  | building n => cases hjoined
  | ended n how => cases hjoined

/-- **The results of a stage** in which nothing failed: one for each unit, in their order. -/
theorem results (h : Accounted rule l₀ s₀ l s fx) (hover : s.isOver = true)
    (hf : s.failure = none) (canceled : Bool) :
    ∃ bs, s.outcome canceled = .ok bs ∧ bs.length = s₀.units.length ∧
      ∀ i u, s₀.units[i]? = some u →
        ∃ r, bs[i]? = some r ∧ Settled rule l₀ s₀ u (asked i fx) r := by
  have hall : ∀ slot ∈ s.slots, ∃ r, slot.progress = .joined (some r) := by
    intro slot hslot
    obtain ⟨i, hi⟩ := List.mem_iff_getElem?.1 hslot
    obtain ⟨r, hr, -⟩ := h.joined hover hf hi
    exact ⟨r, hr⟩
  have hresults := filterMap_result? hall
  refine ⟨_, by rw [outcome, hf], ?_, fun i u hu => ?_⟩
  · have hlength := congrArg List.length hresults
    rw [List.length_map, List.length_map] at hlength
    rw [hlength, ← h.same.units_eq, units, List.length_map]
  · rw [← h.same.units_eq, units, List.getElem?_map] at hu
    obtain ⟨slot, hslot, rfl⟩ := Option.map_eq_some_iff.1 hu
    obtain ⟨r, hr, hsettled⟩ := h.joined hover hf hslot
    refine ⟨r, ?_, hsettled⟩
    have hresult : slot.progress.result? = some r := by rw [hr]; rfl
    have hi := congrArg (·[i]?) hresults
    simp only [List.getElem?_map, hslot, Option.map_some, hresult] at hi
    obtain ⟨r', hr', heq⟩ := Option.map_eq_some_iff.1 hi
    rw [hr', heq]

end Accounted

/-- **The account is kept** at every point of a stage. -/
theorem Course.accounted (h : Course rule l₀ s₀ n l s fx)
    (hnew : ∀ slot ∈ s₀.slots, slot.progress = .planned) (hf : s₀.failure = none) :
    Accounted rule l₀ s₀ l s fx := by
  induction h with
  | start => exact .start hnew hf
  | proceed _ step ih => exact ih.proceed step
  | finish _ hslot hrule step ih => exact ih.finish hslot hrule step
  | join _ step ih => exact ih.join step

/-! ## Steps without end -/

/-- The steps behind and those before the stage are no more than there were at first. -/
theorem Course.bounded (h : Course rule l₀ s₀ n l s fx) : n + s.stepsLeft ≤ s₀.stepsLeft := by
  induction h with
  | start => rw [Nat.zero_add]
  | proceed _ step ih =>
    have := stepsLeft_proceed step
    omega
  | finish _ _ _ step ih =>
    have := stepsLeft_finish step
    omega
  | join _ step ih =>
    have := stepsLeft_join step
    omega

/-- **A stage that is not over has a next step**, where every build can end. -/
theorem Course.exists_next (h : Course rule l₀ s₀ n l s fx) (can : ∀ input, ∃ how, rule input how)
    (hopen : s.isOver = false) : ∃ l' s' fx', Course rule l₀ s₀ (n + 1) l' s' fx' := by
  cases hproceed : s.proceed l with
  | some r => exact ⟨_, _, _, h.proceed hproceed⟩
  | none =>
    rcases exists_move hproceed with ⟨i, u, build, hslot⟩ | ⟨i, u, build, how, hslot⟩ | hover
    · obtain ⟨how, hrule⟩ := can (s.inputOf u build)
      obtain ⟨s', more, hfinish⟩ := exists_finish hslot how
      exact ⟨_, _, _, h.finish hslot hrule hfinish⟩
    · obtain ⟨s', l', hjoin⟩ := exists_join (isLaunched_of_proceed hproceed) hslot l
      exact ⟨_, _, _, h.join hjoin⟩
    · rw [hopen] at hover
      cases hover

end BuildStage

end Conductor
