import Conductor.Engine.BuildStage
/-!
# Engine — the steps of the build stage

What the operations of a build stage can do, each said once: the stage looks for
a unit and finds it or not, starts one, has one end, or joins one. Every change
is to the progress of one unit, so what is to hold of all units is shown of the
one that moved (`BuildStage.forall_put`); a stage keeps what it was planned with
(`BuildStage.SamePlan`). A stage that is not over can go on, has a build under way, or
has a unit to join (`BuildStage.exists_move`), and each of these takes it nearer to
its end (`BuildStage.stepsLeft_put`).
-/

namespace Conductor

/-- The steps that a unit has before it. -/
@[simp] def UnitProgress.stepsLeft : UnitProgress → Nat
  | .planned => 4
  | .missing => 3
  | .building _ => 2
  | .ended _ _ => 1
  | .joined _ => 0

/-- What is reported when a build ends that has the number given. -/
def BuildEnd.reports (n : Nat) : BuildEnd → List LifecycleEvent
  | .returned result => [.buildFinished n (BuildEnd.returned result).isSuccess]
  | .broke _ => []

namespace BuildStage

variable {s s' s₀ : BuildStage} {l l' : Ledger} {i : Nat} {p : UnitProgress} {how : BuildEnd}
  {fx : List Effect}

/-! ## Changing one unit -/

/-- What holds of all units and of the one that moved holds of all units. -/
theorem forall_put {P : BuildSlot → Prop} (h : ∀ slot ∈ s.slots, P slot)
    (hnew : ∀ slot, s.slots[i]? = some slot → P { slot with progress := p }) :
    ∀ slot ∈ (s.put i p).slots, P slot := by
  intro slot hslot
  obtain ⟨j, hj⟩ := List.mem_iff_getElem?.1 hslot
  simp only [put, List.getElem?_modify] at hj
  obtain ⟨old, hold, rfl⟩ := Option.map_eq_some_iff.1 hj
  by_cases hij : i = j
  · subst hij
    rw [if_pos rfl]
    exact hnew old hold
  · rw [if_neg hij]
    exact h old (List.mem_of_getElem? hold)

/-- The same for a unit that is known. -/
theorem forall_put_of {P : BuildSlot → Prop} {u : BuildUnit} {q : UnitProgress}
    (hslot : s.slots[i]? = some ⟨u, q⟩) (h : ∀ slot ∈ s.slots, P slot) (hnew : P ⟨u, p⟩) :
    ∀ slot ∈ (s.put i p).slots, P slot := by
  refine forall_put h fun slot hslot' => ?_
  rw [hslot] at hslot'
  cases hslot'
  exact hnew

/-- The unit that moves is in its new state, and the others are as they were. -/
theorem getElem?_put {u : BuildUnit} {q : UnitProgress} (h : s.slots[i]? = some ⟨u, q⟩) (j : Nat) :
    (s.put i p).slots[j]? = if i = j then some ⟨u, p⟩ else s.slots[j]? := by
  simp only [put, List.getElem?_modify]
  split
  · rename_i hij
    subst hij
    rw [h]
    rfl
  · cases s.slots[j]? <;> rfl

/-- The units stay when one of them moves. -/
theorem units_put : (s.put i p).slots.map BuildSlot.unit = s.slots.map BuildSlot.unit := by
  refine List.ext_getElem? fun j => ?_
  simp only [put, List.getElem?_map, List.getElem?_modify]
  cases s.slots[j]? with
  | none => rfl
  | some slot => by_cases hij : i = j <;> simp [hij]

/-- Two stages were planned with the same units, for the same builder, plan and source. -/
structure SamePlan (s s' : BuildStage) : Prop where
  builder : s'.builder = s.builder
  plan : s'.plan = s.plan
  source : s'.source = s.source
  units : s'.slots.map BuildSlot.unit = s.slots.map BuildSlot.unit

theorem SamePlan.refl (s : BuildStage) : SamePlan s s := ⟨rfl, rfl, rfl, rfl⟩

theorem SamePlan.trans (h : SamePlan s₀ s) (h' : SamePlan s s') : SamePlan s₀ s' :=
  ⟨h'.builder.trans h.builder, h'.plan.trans h.plan, h'.source.trans h.source,
    h'.units.trans h.units⟩

theorem samePlan_put : SamePlan s (s.put i p) := ⟨rfl, rfl, rfl, units_put⟩

/-! ## Where a stage is -/

/-- A stage is launched when no unit waits to be looked for or to be started. -/
theorem isLaunched_iff : s.isLaunched = true ↔
    ∀ slot ∈ s.slots, slot.progress.isPlanned = false ∧ slot.progress.isMissing = false := by
  simp [isLaunched, List.any_eq_false]

/-- A unit that waits keeps the stage from being launched. -/
theorem not_isLaunched {u : BuildUnit} (h : s.slots[i]? = some ⟨u, p⟩)
    (hp : p.isPlanned = true ∨ p.isMissing = true) : s.isLaunched = false := by
  refine Bool.eq_false_iff.2 fun hl => ?_
  obtain ⟨hplanned, hmissing⟩ := isLaunched_iff.1 hl _ (List.mem_of_getElem? h)
  rcases hp with hp | hp
  · rw [hp] at hplanned
    cases hplanned
  · rw [hp] at hmissing
    cases hmissing

/-- A launched stage stays launched when a unit moves on. -/
theorem isLaunched_put (h : s.isLaunched = true) (hp : p.isPlanned = false)
    (hm : p.isMissing = false) : (s.put i p).isLaunched = true :=
  isLaunched_iff.2 (forall_put (isLaunched_iff.1 h) fun _ _ => ⟨hp, hm⟩)

/-- What is found is a unit whose progress is as asked. -/
theorem of_first? {q : UnitProgress → Bool} (h : s.first? q = some i) :
    ∃ slot, s.slots[i]? = some slot ∧ q slot.progress = true := by
  obtain ⟨hlt, hq, -⟩ := List.findIdx?_eq_some_iff_getElem.1 h
  exact ⟨s.slots[i], List.getElem?_eq_getElem hlt, hq⟩

/-! ## What the operations do -/

/-- **The stage goes on** by itself: it finds a unit in the cache, or misses it, or
starts one that it has missed and asks the builder for it. -/
theorem proceed_cases (h : s.proceed l = some (s', l', fx)) :
    (∃ i u hit, s.slots[i]? = some ⟨u, .planned⟩ ∧ l.cache.get? u.fingerprint = some hit ∧
      s' = s.put i (.joined (some (hit.forGroups u.groupIds))) ∧ l' = l.countHit ∧
      fx = [.event (.buildCached u.fingerprint)]) ∨
    (∃ i u, s.slots[i]? = some ⟨u, .planned⟩ ∧ l.cache.get? u.fingerprint = none ∧
      s' = s.put i .missing ∧ l' = l ∧ fx = []) ∨
    ∃ i u, s.slots[i]? = some ⟨u, .missing⟩ ∧ s' = s.put i (.building l.started) ∧
      l' = l.countStart ∧ fx = [.event (.buildStarted l.started s.builder u.groupIds),
        .build s.builder i (s.inputOf u l.started)] := by
  unfold proceed at h
  split at h
  · rename_i i hi
    obtain ⟨⟨u, progress⟩, hslot, hp⟩ := of_first? hi
    cases progress <;> cases hp
    rw [hslot, Option.map_some, Option.some.injEq] at h
    unfold look at h
    split at h
    · rename_i hit hget
      cases h
      exact .inl ⟨i, u, hit, hslot, hget, rfl, rfl, rfl⟩
    · rename_i hget
      cases h
      exact .inr (.inl ⟨i, u, hslot, hget, rfl, rfl, rfl⟩)
  · split at h
    · rename_i i hi
      obtain ⟨⟨u, progress⟩, hslot, hp⟩ := of_first? hi
      cases progress <;> cases hp
      rw [hslot, Option.map_some, Option.some.injEq] at h
      cases h
      exact .inr (.inr ⟨i, u, hslot, rfl, rfl, rfl⟩)
    · cases h

/-- The task of a unit that is being built ends, and is reported unless it broke down. -/
theorem finish_reports (h : s.finish i how = some (s', fx)) :
    ∃ u n, s.slots[i]? = some ⟨u, .building n⟩ ∧ s' = s.put i (.ended n how) ∧
      fx = (how.reports n).map Effect.event := by
  unfold finish at h
  split at h
  · rename_i u n hslot
    cases h
    cases how with
    | returned result => exact ⟨u, n, hslot, rfl, rfl⟩
    | broke message => exact ⟨u, n, hslot, rfl, rfl⟩
  · cases h

/-- So its end is at most reported. -/
theorem finish_cases (h : s.finish i how = some (s', fx)) :
    ∃ (u : BuildUnit) (n : Nat) (told : List LifecycleEvent),
      s.slots[i]? = some ⟨u, .building n⟩ ∧ s' = s.put i (.ended n how) ∧
      fx = told.map Effect.event := by
  obtain ⟨u, n, hslot, hs, hfx⟩ := finish_reports h
  exact ⟨u, n, _, hslot, hs, hfx⟩

/-- **A unit is joined** whose task has ended, when the stage is launched: its result
is entered, or its failure cancels the builds. -/
theorem join_cases (h : s.join l i = some (s', l')) :
    s.isLaunched = true ∧ ∃ u n how, s.slots[i]? = some ⟨u, .ended n how⟩ ∧
      ((∃ out, how = .returned (.ok out) ∧ s' = s.put i (.joined (some (s.resultOf u out))) ∧
          l' = l.enter (s.resultOf u out)) ∨
        (∃ failure, (∀ out, how ≠ .returned (.ok out)) ∧ l' = l ∧
          s' = { s.put i (.joined none) with canceled := true, failure := some failure })) := by
  unfold join at h
  split at h
  · rename_i u n how hl hslot
    refine ⟨hl, u, n, how, hslot, ?_⟩
    split at h
    · rename_i out
      cases h
      exact .inl ⟨out, rfl, rfl, rfl⟩
    · rename_i error
      cases h
      exact .inr ⟨_, fun out => by simp, rfl, rfl⟩
    · rename_i message
      cases h
      exact .inr ⟨_, fun out => by simp, rfl, rfl⟩
  · cases h

/-! ## Going on -/

/-- The steps that the stage has before it, at most. -/
def stepsLeft (s : BuildStage) : Nat :=
  s.slots.foldr (fun slot n => slot.progress.stepsLeft + n) 0

/-- A unit that moves on takes the stage nearer to its end. -/
theorem stepsLeft_put {u : BuildUnit} {q : UnitProgress} (h : s.slots[i]? = some ⟨u, q⟩)
    (hlt : p.stepsLeft < q.stepsLeft) : (s.put i p).stepsLeft < s.stepsLeft := by
  simp only [stepsLeft, put]
  generalize s.slots = slots at h
  induction slots generalizing i with
  | nil => simp at h
  | cons slot slots ih =>
    cases i with
    | zero =>
      cases h
      simpa [List.modify_zero_cons] using hlt
    | succ i =>
      have := ih h
      simpa [List.modify_succ_cons] using this

/-- Going on takes the stage nearer to its end. -/
theorem stepsLeft_proceed (h : s.proceed l = some (s', l', fx)) : s'.stepsLeft < s.stepsLeft := by
  rcases proceed_cases h with ⟨i, u, hit, hslot, -, rfl, -⟩ | ⟨i, u, hslot, -, rfl, -⟩ |
    ⟨i, u, hslot, rfl, -⟩
  · exact stepsLeft_put hslot (by simp)
  · exact stepsLeft_put hslot (by simp)
  · exact stepsLeft_put hslot (by simp)

/-- So does the end of a build. -/
theorem stepsLeft_finish (h : s.finish i how = some (s', fx)) : s'.stepsLeft < s.stepsLeft := by
  obtain ⟨u, n, told, hslot, rfl, -⟩ := finish_cases h
  exact stepsLeft_put hslot (by simp)

/-- So does joining a unit. -/
theorem stepsLeft_join (h : s.join l i = some (s', l')) : s'.stepsLeft < s.stepsLeft := by
  obtain ⟨-, u, n, how, hslot, ⟨out, -, rfl, -⟩ | ⟨failure, -, -, rfl⟩⟩ := join_cases h
  · exact stepsLeft_put hslot (by simp)
  · exact stepsLeft_put (p := .joined none) hslot (by simp)

/-- A stage in which nothing has happened has four steps for each unit. -/
theorem stepsLeft_of_planned (h : ∀ slot ∈ s.slots, slot.progress = .planned) :
    s.stepsLeft = 4 * s.slots.length := by
  simp only [stepsLeft]
  generalize s.slots = slots at h
  induction slots with
  | nil => rfl
  | cons slot slots ih =>
    rw [List.forall_mem_cons] at h
    rw [List.foldr_cons, ih h.2, h.1, UnitProgress.stepsLeft, List.length_cons]
    omega

/-- A build that is under way can end. -/
theorem exists_finish {u : BuildUnit} {n : Nat} (h : s.slots[i]? = some ⟨u, .building n⟩)
    (how : BuildEnd) : ∃ s' fx, s.finish i how = some (s', fx) := by
  simp only [finish, h]
  exact ⟨_, _, rfl⟩

/-- In a launched stage a unit whose task has ended can be joined. -/
theorem exists_join {u : BuildUnit} {n : Nat} (launched : s.isLaunched = true)
    (h : s.slots[i]? = some ⟨u, .ended n how⟩) (l : Ledger) :
    ∃ s' l', s.join l i = some (s', l') := by
  simp only [join, launched, h]
  split <;> exact ⟨_, _, rfl⟩

/-- A stage that does not go on has launched every unit. -/
theorem isLaunched_of_proceed (h : s.proceed l = none) : s.isLaunched = true := by
  have none_of : ∀ {q : UnitProgress → Bool} {f : BuildSlot → BuildStage × Ledger × List Effect}
      {j : Nat}, s.first? q = some j → s.slots[j]?.map f ≠ none := by
    intro q f j hj
    obtain ⟨slot, hslot, -⟩ := of_first? hj
    simp [hslot]
  unfold proceed at h
  split at h
  · rename_i j hj
    exact absurd h (none_of hj)
  · rename_i hplanned
    split at h
    · rename_i j hj
      exact absurd h (none_of hj)
    · rename_i hmissing
      rw [first?, List.findIdx?_eq_none_iff] at hplanned hmissing
      exact isLaunched_iff.2 fun slot hslot => ⟨hplanned slot hslot, hmissing slot hslot⟩

/-- A stage that is over does not go on. -/
theorem proceed_of_isOver (h : s.isOver = true) (l : Ledger) : s.proceed l = none := by
  rw [isOver, List.all_eq_true] at h
  have hnone : ∀ q : UnitProgress → Bool, (∀ r, q (.joined r) = false) → s.first? q = none := by
    intro q hq
    refine List.findIdx?_eq_none_iff.2 fun slot hslot => ?_
    obtain ⟨u, progress⟩ := slot
    cases progress with
    | joined r => exact hq r
    | _ => cases h _ hslot
  unfold proceed
  rw [hnone _ fun _ => rfl]
  dsimp only
  rw [hnone _ fun _ => rfl]

/-- **A stage that does not go on by itself** has a build under way, or a unit to join,
or is over. -/
theorem exists_move (h : s.proceed l = none) :
    (∃ (i : Nat) (u : BuildUnit) (n : Nat), s.slots[i]? = some ⟨u, .building n⟩) ∨
      (∃ (i : Nat) (u : BuildUnit) (n : Nat) (how : BuildEnd),
        s.slots[i]? = some ⟨u, .ended n how⟩) ∨ s.isOver = true := by
  by_cases hover : s.isOver = true
  · exact .inr (.inr hover)
  · rw [Bool.not_eq_true, isOver, List.all_eq_false] at hover
    obtain ⟨⟨u, progress⟩, hslot, hopen⟩ := hover
    obtain ⟨hplanned, hmissing⟩ := isLaunched_iff.1 (isLaunched_of_proceed h) _ hslot
    obtain ⟨i, hi⟩ := List.mem_iff_getElem?.1 hslot
    cases progress with
    | planned => cases hplanned
    | missing => cases hmissing
    | building n => exact .inl ⟨i, u, n, hi⟩
    | ended n how => exact .inr (.inl ⟨i, u, n, how, hi⟩)
    | joined r => exact absurd rfl hopen

end BuildStage

end Conductor
