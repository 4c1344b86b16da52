import Conductor.Proofs.Composition.Decoding
import Conductor.Proofs.Composition.WellFormed
import Conductor.Proofs.Config.Layers
import Conductor.Proofs.Engine.Account
import Conductor.Proofs.Engine.Cleanup
import Conductor.Proofs.Engine.Partition
/-!
# Engine — what a runner is asked for

The input of a run is put together from the composition, the environment and the results
of the builds. Each group comes with its own data (`RunInput.Supplied`): its size as
validation resolved it, its parameters over the defaults, its configuration over those of
the run, and its artifact, which is the one it has, or that of the build made for it.

An artifact finds its group through the ids in the results of the builds. The plan
divides the groups that are to be built (`BuildUnit.divides_of_plan`), and a result that is
joined has the ids of its unit, also when it was made for other groups and comes from the
cache (`BuildStage.Owned`). So exactly one result has the id of such a group
(`filter_of_divides`), whatever the cache held and whichever build ended first.
-/

namespace Conductor

/-! ## What is asked for -/

/-- The tables of a composition are in order. -/
structure Composition.Tabular (c : Composition) : Prop where
  settings : c.settings.runConfig.Sorted
  groups : ∀ g ∈ c.groups, g.runConfig.Sorted ∧ g.run.parameters.Sorted

/-- So they are in a composition that is decoded. -/
theorem Composition.Ordered.tabular {c : Composition} (h : c.Ordered) : c.Tabular where
  settings := h.settings.runConfig
  groups := fun g hg => ⟨(h.groups g hg).runConfig, (h.groups g hg).parameters⟩

/-- What a runner is asked for on behalf of a group. -/
structure RunGroup.Supplied (e : Engine) (c : Composition) (runner : Selector)
    (builds : List BuildResult) (g : Group) (x : RunGroup) : Prop where
  id : x.id = g.id
  size : g.sizing.Stands c.settings.total x.instances
  /-- The artifact is that of the group, or the default, or that of the one result for
  the group. -/
  artifact : match g.run.artifact.or (c.settings.run.bind RunOptions.artifact) with
    | some artifact => x.artifact = artifact
    | none => ∃ b, builds.filter (fun b => b.groupIds.contains g.id) = [b] ∧ x.artifact = b.artifact
  /-- The parameters are those of the group over the defaults. -/
  parameters : ∀ key, x.parameters.get? key =
    (g.run.parameters.get? key).or (c.settings.run.bind fun r => r.parameters.get? key)
  /-- The configuration is that of the group over that of the run over that of the
  environment. -/
  config : ∃ t : ConfigTable, x.config = .object t ∧ ∀ key, t.get? key = (g.runConfig.get? key).or
    ((c.settings.runConfig.get? key).or ((e.environment.runnerLayer runner).get? key))

/-- What a runner is asked for on behalf of a composition: its groups, in their order. -/
structure RunInput.Supplied (e : Engine) (c : Composition) (runner : Selector)
    (builds : List BuildResult) (input : RunInput) : Prop where
  groups : List.Forall₂ (RunGroup.Supplied e c runner builds) c.groups input.groups
  total : totalOf (input.groups.map RunGroup.instances) = input.total
  /-- The configuration of a group is its own on top of that of the input. -/
  config : ∃ base, input.config = .object base ∧
    List.Forall₂ (fun g x => x.config = .object (Table.overlay base g.runConfig))
      c.groups input.groups

/-! ## Results and their groups -/

namespace BuildUnit

variable {gs : List Group} {id : String} {lists : List (List String)}

/-- A member of one of some disjoint lists is in that list only. -/
theorem filter_contains_of_nodup (hnodup : lists.flatten.Nodup) (hid : id ∈ lists.flatten) :
    ∃ ids, lists.filter (·.contains id) = [ids] := by
  induction lists with
  | nil => simp at hid
  | cons ids lists ih =>
    rw [List.flatten_cons, List.nodup_append] at hnodup
    obtain ⟨-, hrest, hdisjoint⟩ := hnodup
    by_cases hmem : id ∈ ids
    · refine ⟨ids, ?_⟩
      have hnone : ∀ ids' ∈ lists, id ∉ ids' := fun ids' hids' hid' =>
        hdisjoint id hmem id (List.mem_flatten.2 ⟨ids', hids', hid'⟩) rfl
      simpa [hmem] using hnone
    · rw [List.flatten_cons, List.mem_append, or_iff_right hmem] at hid
      obtain ⟨ids', hids'⟩ := ih hrest hid
      exact ⟨ids', by simpa [hmem] using hids'⟩

/-- **Exactly one result is for a group** that is to be built. -/
theorem filter_of_divides {builds : List BuildResult} {g : Group}
    (h : Divides gs (builds.map BuildResult.groupIds)) (distinct : (gs.map Group.id).Nodup)
    (hg : g ∈ gs) : ∃ b, builds.filter (fun b => b.groupIds.contains g.id) = [b] := by
  obtain ⟨ids, hids⟩ := filter_contains_of_nodup (h.whole.nodup_iff.2 distinct)
    (h.whole.mem_iff.2 (List.mem_map_of_mem hg))
  rw [List.filter_map] at hids
  obtain ⟨b, hb, -⟩ := List.map_eq_singleton_iff.1 hids
  exact ⟨b, hb⟩

end BuildUnit

/-! ## The stage -/

namespace BuildStage

variable {s s' : BuildStage} {l l' : Ledger} {i : Nat} {how : BuildEnd} {fx : List Effect}

/-- A unit that is joined has a result for its own groups, or the stage has failed. -/
def Owned (failure : Option BuildFailure) (slot : BuildSlot) : Prop :=
  match slot.progress with
  | .joined (some r) => r.groupIds = slot.unit.groupIds
  | .joined none => failure ≠ none
  | _ => True

/-- A stage with these units, in which every result is for the groups of its unit. -/
structure Stocked (units : List BuildUnit) (s : BuildStage) : Prop where
  units : s.slots.map BuildSlot.unit = units
  owned : ∀ slot ∈ s.slots, Owned s.failure slot

namespace Stocked

variable {units : List BuildUnit}

theorem put {u : BuildUnit} {p q : UnitProgress} (h : Stocked units s)
    (hslot : s.slots[i]? = some ⟨u, q⟩) (hp : Owned s.failure ⟨u, p⟩) :
    Stocked units (s.put i p) :=
  ⟨units_put.trans h.units, forall_put_of hslot h.owned hp⟩

theorem proceed (h : Stocked units s) (step : s.proceed l = some (s', l', fx)) :
    Stocked units s' := by
  rcases proceed_cases step with ⟨i, u, hit, hslot, -, rfl, -⟩ | ⟨i, u, hslot, -, rfl, -⟩ |
    ⟨i, u, hslot, rfl, -⟩
  -- what the cache has is for the groups of another plan, so its ids are replaced
  · exact h.put hslot rfl
  · exact h.put hslot trivial
  · exact h.put hslot trivial

theorem finish (h : Stocked units s) (step : s.finish i how = some (s', fx)) :
    Stocked units s' := by
  obtain ⟨u, n, told, hslot, rfl, -⟩ := finish_cases step
  exact h.put hslot trivial

theorem join (h : Stocked units s) (step : s.join l i = some (s', l')) : Stocked units s' := by
  obtain ⟨-, u, n, how, hslot, ⟨out, -, rfl, -⟩ | ⟨failure, -, -, rfl⟩⟩ := join_cases step
  · exact h.put hslot rfl
  · have howned : ∀ slot ∈ s.slots, Owned (some failure) slot := by
      intro slot hmem
      have hold := h.owned slot hmem
      unfold Owned at hold ⊢
      split at hold <;> simp_all
    exact ⟨units_put.trans h.units, forall_put_of hslot howned (by simp [Owned])⟩

/-- In a stage that is over and has not failed every unit has its result. -/
theorem joined (h : Stocked units s) (hover : s.isOver = true) (hnone : s.failure = none) :
    ∀ slot ∈ s.slots,
      ∃ r, slot.progress = .joined (some r) ∧ r.groupIds = slot.unit.groupIds := by
  intro slot hslot
  have howned := h.owned slot hslot
  have hjoined := List.all_eq_true.1 hover slot hslot
  obtain ⟨u, p⟩ := slot
  cases p with
  | joined r =>
    cases r with
    | none => exact absurd hnone howned
    | some r => exact ⟨r, rfl, howned⟩
  | planned => cases hjoined
  | missing => cases hjoined
  | building n => cases hjoined
  | ended n how => cases hjoined

/-- **The results of a stage that is over are for the groups of its units**, in order. -/
theorem outcome {builds : List BuildResult} {canceled : Bool} (h : Stocked units s)
    (hover : s.isOver = true) (hout : s.outcome canceled = .ok builds) :
    builds.map BuildResult.groupIds = units.map BuildUnit.groupIds := by
  unfold BuildStage.outcome at hout
  split at hout
  · cases hout
  · rename_i hnone
    cases hout
    have hjoined := h.joined hover hnone
    rw [← h.units]
    generalize s.slots = slots at hjoined
    induction slots with
    | nil => rfl
    | cons slot slots ih =>
      obtain ⟨⟨r, hr, hids⟩, hrest⟩ := List.forall_mem_cons.1 hjoined
      have hresult : slot.progress.result? = some r := by rw [hr]; rfl
      rw [List.filterMap_cons, hresult, List.map_cons, ih hrest, hids]
      rfl

end Stocked

end BuildStage

/-! ## The way to the run -/

namespace Call

variable {e : Engine} {l l' : Ledger} {c c' : Call} {i : CallInput} {is : List CallInput}
  {fx fx' : List Effect} {comp : Composition} {s : Selector} {input : RunInput}
  {builds : List BuildResult}

/-- The builds that an engine plans for a composition that is valid. -/
def Planned (e : Engine) (comp : Composition) (v : ValidComposition) (units : List BuildUnit) :
    Prop :=
  comp.validate = .ok v ∧ ∃ b, e.planBuilds v b = .ok units

/-- The results of the builds are there, each for the groups of its unit. -/
def Stored (e : Engine) (comp : Composition) (order : RunOrder) (builds : List BuildResult) :
    Prop :=
  ∃ units, Planned e comp order.composition units ∧
    builds.map BuildResult.groupIds = units.map BuildUnit.groupIds

/-- Where an orchestration is on its way to the run: its builds go on as planned, or are
there. -/
def Equipped (e : Engine) (comp : Composition) : CallPhase → Prop
  | .building o stage => ∃ order units, o = some order ∧ Planned e comp order.composition units ∧
      stage.Stocked units
  | .gated order builds => Stored e comp order builds
  | _ => True

/-- What a step comes to: the call stays on its way, and where it asks a runner to start
the input is that of its order and its builds. -/
structure GoesOn (e : Engine) (comp : Composition) (r : Call × List Effect) : Prop where
  equipped : Equipped e comp r.1.phase
  asks : ∀ s input, .run s input ∈ r.2 → ∃ p runId, r.1.phase = .running p ∧
    s = p.order.runner.id ∧ p.order.input e runId p.builds = .ok input ∧
    Stored e comp p.order p.builds

/-- An orchestration begins with the builds of a valid composition, and with the runner that
was found for it. -/
theorem beginRun_eq_ok {canceled : Bool} {comp : Composition} {o : CallOptions}
    {phase : CallPhase} (h : beginRun e canceled comp o = .ok phase) :
    ∃ v b order stage, comp.validate = .ok v ∧ components e v = .ok (b, order.runner) ∧
      planned e canceled v b o = .ok stage ∧ phase = .building (some order) stage ∧
        order.composition = v := by
  unfold beginRun at h
  cases hv : comp.validate with
  | error vs => rw [hv] at h; cases h
  | ok v =>
    rw [hv] at h
    simp only [bind, Except.bind, Except.mapError] at h
    cases hcomponents : components e v with
    | error x => rw [hcomponents] at h; cases h
    | ok pair =>
      rw [hcomponents] at h
      dsimp only at h
      cases hplanned : planned e canceled v pair.1 o with
      | error x => rw [hplanned] at h; cases h
      | ok stage =>
        rw [hplanned] at h
        cases h
        exact ⟨v, _, _, stage, rfl, hcomponents, hplanned, rfl, rfl⟩

/-- A step that asks no runner to start. -/
theorem GoesOn.quiet {r : Call × List Effect} (h : Equipped e comp r.1.phase)
    (hnone : ∀ s input, .run s input ∉ r.2) : GoesOn e comp r :=
  ⟨h, fun s input hmem => absurd hmem (hnone s input)⟩

theorem not_run_of_quiet (h : ∀ x ∈ fx, x.IsQuiet) : ∀ s input, .run s input ∉ fx := by
  intro s input hmem
  have hrun : (Effect.run s input).isRun = false := (h _ hmem).2.2
  cases hrun

theorem goesOn_startRun (p : RunProgress) (hstored : Stored e comp p.order p.builds) :
    GoesOn e comp (c.startRun e p) := by
  unfold startRun
  split
  · exact .quiet trivial (by simp [abort, failureEvent])
  · rename_i input hinput
    split
    · exact .quiet trivial (by simp [abort, failureEvent])
    · refine ⟨trivial, fun s input' hmem => ?_⟩
      simp only [List.mem_cons, List.not_mem_nil, or_false, reduceCtorEq, false_or,
        Effect.run.injEq] at hmem
      obtain ⟨rfl, rfl⟩ := hmem
      exact ⟨p, _, rfl, rfl, hinput, hstored⟩

theorem goesOn_gate (o : RunOrder) (hstored : Stored e comp o builds) :
    GoesOn e comp (c.gate e o builds) := by
  unfold gate
  split
  · exact .quiet hstored (by simp)
  · exact goesOn_startRun _ hstored

/-- The builds are over: each result is for the groups of its unit. -/
theorem goesOn_concludeBuilds (o : RunOrder) {stage : BuildStage} {units : List BuildUnit}
    (hplanned : Planned e comp o.composition units) (hstocked : stage.Stocked units)
    (hover : stage.isOver = true) :
    GoesOn e comp (c.concludeBuilds e (some o) stage) := by
  unfold concludeBuilds
  cases hout : stage.outcome c.canceled with
  | error error => exact .quiet trivial (by simp [abort, failureEvent])
  | ok builds => exact goesOn_gate o ⟨units, hplanned, hstocked.outcome hover hout⟩

theorem goesOn_passGate (o : RunOrder) (result : HealthResult)
    (hstored : Stored e comp o builds) : GoesOn e comp (c.passGate e o builds result) := by
  unfold passGate
  cases result with
  | error error => exact .quiet trivial (by simp [abort, failureEvent])
  | ok report =>
    dsimp only
    cases o.policy.rejection? report with
    | some reason => exact .quiet trivial (by simp [abort, failureEvent])
    | none =>
      have hstart : GoesOn e comp (c.startRun e ⟨o, builds, some report⟩) :=
        goesOn_startRun _ hstored
      refine ⟨hstart.equipped, fun s input hmem => hstart.asks s input ?_⟩
      simpa using hmem

/-- **The step lemma.** -/
theorem Step.goesOn (h : Step e l c i l' c' fx) (heq : Equipped e comp c.phase) :
    GoesOn e comp (c', fx) := by
  have of_phase : ∀ {p : CallPhase}, c.phase = p → Equipped e comp p := fun hp => hp ▸ heq
  cases h with
  | cancel => exact .quiet heq (by simp)
  | hangUp => exact .quiet heq (by simp)
  | collect => exact .quiet heq (not_run_of_quiet quiet_collectEffects)
  | build hphase hs =>
    obtain ⟨order, units, ho, hplanned, hstocked⟩ := of_phase hphase
    refine .quiet ⟨order, units, ho, hplanned, hstocked.proceed hs⟩ ?_
    rcases BuildStage.proceed_cases hs with ⟨_, _, _, _, _, _, _, rfl⟩ | ⟨_, _, _, _, _, _, rfl⟩ |
      ⟨_, _, _, _, _, rfl⟩ <;> simp
  | conclude hphase _ hover =>
    obtain ⟨order, units, rfl, hplanned, hstocked⟩ := of_phase hphase
    exact goesOn_concludeBuilds order hplanned hstocked hover
  | report hphase =>
    refine .quiet trivial ?_
    unfold concludeRun
    dsimp only
    split <;> simp
  | finish hphase hs =>
    obtain ⟨order, units, ho, hplanned, hstocked⟩ := of_phase hphase
    obtain ⟨_, _, told, _, _, rfl⟩ := BuildStage.finish_cases hs
    exact .quiet ⟨order, units, ho, hplanned, hstocked.finish hs⟩
      (not_run_of_quiet (quiet_events told))
  | join hphase hs =>
    obtain ⟨order, units, ho, hplanned, hstocked⟩ := of_phase hphase
    exact .quiet ⟨order, units, ho, hplanned, hstocked.join hs⟩ (by simp)
  | pass hphase => exact goesOn_passGate _ _ (of_phase hphase)
  | healthy => exact .quiet trivial (by simp)
  | unhealthy => exact .quiet trivial (by simp)
  | @returned p r hphase =>
    match r with
    | .ok _ => exact .quiet trivial (by simp [endRun])
    | .error .canceled => exact .quiet trivial (by simp [endRun])
    | .error (.failed causes) =>
      exact .quiet trivial (by simp [endRun, abort, failureEvent])
    | .error (.invalidInput reason) =>
      exact .quiet trivial (by simp [endRun, abort, failureEvent])

variable {runId : String} {canceled : Bool} {o : CallOptions}

/-- An orchestration is over at once, or begins with the builds that are planned. -/
theorem orchestration_equipped :
    Equipped e comp (orchestration e runId canceled comp o).phase := by
  cases hbegin : beginRun e canceled comp o with
  | error error =>
    rw [orchestration_of_error hbegin]
    trivial
  | ok phase =>
    obtain ⟨v, b, order, stage, hv, -, hplanned, rfl, rfl⟩ := beginRun_eq_ok hbegin
    obtain ⟨-, hplan, -, hnew, -⟩ := BuildStage.planned_cases hplanned
    rw [orchestration_of_ok hbegin]
    refine ⟨order, _, rfl, ⟨hv, b, hplan⟩, rfl, fun slot hslot => ?_⟩
    rw [BuildStage.Owned, hnew slot hslot]
    trivial

/-- **The run lemma.** -/
theorem Follows.equipped (h : Follows e (orchestration e runId canceled comp o) is c fx) :
    Equipped e comp c.phase := by
  induction h with
  | start => exact orchestration_equipped
  | next _ step ih => exact ((Step.of_step step).goesOn ih).equipped

end Call

/-! ## The input -/

namespace RunOrder

variable {e : Engine} {c : Composition} {o : RunOrder} {builds : List BuildResult}
  {runId : String} {input : RunInput} {ns : List Nat} {units : List BuildUnit} {b : Builder}
  {g : Group} {i : Nat}

/-- What the input of a run is made of. -/
theorem input_eq_ok (h : o.input e runId builds = .ok input) :
    input.total = o.composition.total ∧ input.config = .object (o.config e) ∧
      input.groups = o.composition.composition.groups.mapIdx (o.groupInput e builds) := by
  unfold RunOrder.input at h
  split at h
  · cases h
  · cases h
    exact ⟨rfl, rfl, rfl⟩

/-- An artifact that a group does not have is that of the result for the group. -/
theorem artifactOf_of_filter {r : BuildResult} (hown : g.run.artifact = none)
    (h : builds.filter (fun b => b.groupIds.contains g.id) = [r]) :
    artifactOf builds g = r.artifact := by
  have hfind : builds.find? (fun b => b.groupIds.contains g.id) = some r := by
    rw [← List.head?_filter, h]
    rfl
  simp only [artifactOf, hown, hfind]

/-- A group of a valid composition that has no artifact has one result. -/
theorem exists_result {v : ValidComposition} (hv : c.validate = .ok v)
    (hplan : e.planBuilds v b = .ok units)
    (hbuilds : builds.map BuildResult.groupIds = units.map BuildUnit.groupIds)
    (hg : g ∈ v.composition.groups) (hown : g.run.artifact = none) :
    ∃ r, builds.filter (fun b => b.groupIds.contains g.id) = [r] := by
  have hdistinct := BuildUnit.ids_groupsToBuild_nodup hv
  have hdivides := BuildUnit.divides_of_plan hplan hdistinct
  rw [← hbuilds] at hdivides
  exact BuildUnit.filter_of_divides hdivides hdistinct
    (List.mem_filter.2 ⟨hg, by rw [hown]; rfl⟩)

/-- **The group at a place is supplied** with what belongs to it. -/
theorem supplied_group (hv : c.validate = .ok o.composition) (hwf : c.WellFormed ns)
    (hcounts : o.composition.counts = ns) (hcomplete : o.composition.composition = c.complete ns)
    (htables : c.Tabular) (henv : (e.environment.runnerLayer o.runner.id).Sorted)
    (hplan : e.planBuilds o.composition b = .ok units)
    (hbuilds : builds.map BuildResult.groupIds = units.map BuildUnit.groupIds)
    (hg : c.groups[i]? = some g) :
    RunGroup.Supplied e c o.runner.id builds g
      (o.groupInput e builds i (Composition.withDefaults c.settings g)) := by
  have hmem : g ∈ c.groups := List.mem_of_getElem? hg
  obtain ⟨hown, hparameters⟩ := htables.groups g hmem
  have hartifact := Composition.artifact_withDefaults c.settings g
  refine ⟨rfl, ?_, ?_, fun key => Composition.parameters_withDefaults _ hparameters, _, rfl,
    fun key => ?_⟩
  · obtain ⟨hi, rfl⟩ := List.getElem?_eq_some_iff.1 hg
    have hi' : i < ns.length := hwf.sizes.length_eq ▸ hi
    have hcount : o.composition.count i = ns[i] := by
      rw [ValidComposition.count, hcounts, List.getD_eq_getElem _ _ hi']
    show Sizing.Stands _ _ (o.composition.count i)
    rw [hcount]
    exact hwf.sizes.get hi hi'
  · split
    · rename_i artifact hsome
      simp only [groupInput, artifactOf, hartifact, hsome]
    · rename_i hnone
      rw [hnone] at hartifact
      have hplace : Composition.withDefaults c.settings g ∈ o.composition.composition.groups := by
        rw [hcomplete]
        exact List.mem_map_of_mem hmem
      obtain ⟨r, hr⟩ := exists_result hv hplan hbuilds hplace hartifact
      exact ⟨r, hr, artifactOf_of_filter hartifact hr⟩
  · have hrun : o.composition.composition.settings.runConfig = c.settings.runConfig := by
      rw [hcomplete]
      rfl
    have hlayers := htables.settings
    simp only [groupConfig, hrun]
    rw [ConfigTable.get?_coalesce (by simp [henv, hlayers, Composition.withDefaults, hown])]
    simp [Composition.withDefaults]

/-- **The input of a run is supplied** when the results of the builds are there. -/
theorem supplied (htables : c.Tabular) (henv : (e.environment.runnerLayer o.runner.id).Sorted)
    (hstored : Call.Stored e c o builds) (h : o.input e runId builds = .ok input) :
    RunInput.Supplied e c o.runner.id builds input ∧ input.total = o.composition.total ∧
      input.groups.map RunGroup.instances = o.composition.counts := by
  obtain ⟨units, ⟨hv, b, hplan⟩, hbuilds⟩ := hstored
  obtain ⟨htotal, hconfig, hgroups⟩ := input_eq_ok h
  obtain ⟨ns, hwf⟩ := Composition.violations_eq_nil.1 (Composition.validateFor_eq_ok hv).1
  obtain ⟨selector, r, -, -, hok⟩ := hwf.validate
  have hcomposition : o.composition = ⟨c.complete ns, selector, some r, ns⟩ :=
    Except.ok.inj (hv.symm.trans hok)
  have hcounts : o.composition.counts = ns := by rw [hcomposition]
  have hcomplete : o.composition.composition = c.complete ns := by rw [hcomposition]
  have hlength : c.groups.length = ns.length := hwf.sizes.length_eq
  have hinput : input.groups =
      (c.groups.map (Composition.withDefaults c.settings)).mapIdx (o.groupInput e builds) := by
    rw [hgroups, hcomplete]
    rfl
  have hinstances : input.groups.map RunGroup.instances = ns := by
    refine List.ext_getElem (by simp [hinput, hlength]) fun i hi hi' => ?_
    simp [hinput, groupInput, ValidComposition.count, hcounts, hi']
  refine ⟨⟨?_, ?_, ⟨_, hconfig, ?_⟩⟩, htotal, hinstances.trans hcounts.symm⟩
  · refine List.forall₂_iff_get.2 ⟨by simp [hinput], fun i hi hi' => ?_⟩
    have hgroup := supplied_group hv hwf hcounts hcomplete htables henv hplan hbuilds
      (List.getElem?_eq_getElem hi)
    simpa [hinput] using hgroup
  · rw [hinstances, htotal, ValidComposition.total, hcomplete, hwf.total_complete]
  · refine List.forall₂_iff_get.2 ⟨by simp [hinput], fun i hi hi' => ?_⟩
    simp [hinput, groupInput, groupConfig, config, ConfigTable.coalesce, Composition.withDefaults]

end RunOrder

namespace Call

variable {e : Engine} {l l' : Ledger} {c c' : Call} {i : CallInput} {is : List CallInput}
  {fx fx' : List Effect} {comp : Composition} {s : Selector} {input : RunInput}
  {runId : String} {canceled : Bool} {o : CallOptions}

/-- **Every group is run with its own** artifact, parameters, configuration and size. When
an orchestration comes to ask a runner to start, whatever the cache held and in whatever
order its builds ended, the input has what belongs to each group of the composition, the
results being those that the call goes on with. -/
theorem Follows.run_supplied (htables : comp.Tabular)
    (henv : ∀ runner, (e.environment.runnerLayer runner).Sorted)
    (h : Follows e (orchestration e runId canceled comp o) is c fx)
    (step : c.step e l i = some (l', c', fx')) (hrun : .run s input ∈ fx') :
    ∃ p v, c'.phase = .running p ∧ comp.validate = .ok v ∧
      input.Supplied e comp s p.builds ∧ input.total = v.total ∧
      input.groups.map RunGroup.instances = v.counts := by
  obtain ⟨p, runId', hphase, rfl, hinput, hstored⟩ :=
    ((Step.of_step step).goesOn h.equipped).asks s input hrun
  have hvalid : comp.validate = .ok p.order.composition := hstored.choose_spec.1.1
  exact ⟨p, p.order.composition, hphase, hvalid,
    RunOrder.supplied htables (henv _) hstored hinput⟩

/-! ## A result from the cache

A group is to be built, and what it asks for was built for another. -/

namespace Reuse

def builder : Builder := ⟨Local.builderId, [], fun _ => .ok ()⟩

def runner : Runner := ⟨Local.runnerId, ["exec"], fun _ => .ok (), none⟩

def engine : Engine := ⟨⟨[builder], [runner]⟩, .standard, ⟨"/home"⟩⟩

def group : Group :=
  ⟨"p", ⟨2, .zero⟩, .none, [], [("level", .bool true)], ⟨none, [("mode", "x")]⟩⟩

def composition : Composition where
  metadata := ⟨"", ""⟩
  settings := ⟨"plan", "case", 0, "exec:bin", "local:exec", [], none, [("level", .bool false)],
    some ⟨none, [("speed", "slow")]⟩⟩
  groups := [group]

def order : RunOrder :=
  ⟨⟨composition.complete [2], builder.id, some runner.id, [2]⟩, runner, .standard⟩

/-- The stage with its unit in some progress. -/
def stage (u : BuildUnit) (p : UnitProgress) : BuildStage :=
  ⟨builder.id, "plan", "/home/plans/plan", [⟨u, p⟩], false, none⟩

/-- The result of the same build for another group. -/
def older (u : BuildUnit) : BuildResult := ⟨builder.id, "/bin/p", ["other"], u.fingerprint, []⟩

def ledger (u : BuildUnit) : Ledger := Ledger.empty.enter (older u)

/-- The call with its builds in a stage. -/
def call (s : BuildStage) : Call := opened "run" false false (.building (some order) s)

/-- The call once the unit has its result. -/
def supplied (u : BuildUnit) : Call :=
  call (stage u (.joined (some ((older u).forGroups u.groupIds))))

theorem begins : ∃ u, orchestration engine "run" false composition ⟨none, none, false⟩ =
    call (stage u .planned) ∧ u.groupIds = ["p"] := by
  obtain ⟨u, hbegin, hids⟩ : ∃ u, beginRun engine false composition ⟨none, none, false⟩ =
      .ok (.building (some order) (stage u .planned)) ∧ u.groupIds = ["p"] := ⟨_, rfl, rfl⟩
  exact ⟨u, orchestration_of_ok hbegin, hids⟩

/-- The unit is found in the cache. -/
theorem finds (u : BuildUnit) : ∃ l fx,
    (call (stage u .planned)).step engine (ledger u) .proceed = some (l, supplied u, fx) := by
  have hget : (ledger u).cache.get? u.fingerprint = some (older u) := Table.get?_insert_self
  have hlook : (stage u .planned).proceed (ledger u) =
      some ((stage u .planned).look (ledger u) 0 u) := rfl
  rw [BuildStage.look, hget] at hlook
  simp only [Call.step, Call.proceed, call, opened, hlook]
  exact ⟨_, _, rfl⟩

/-- The runner is asked to start. -/
theorem runs {u : BuildUnit} (hids : u.groupIds = ["p"]) : ∃ c' fx input,
    (supplied u).step engine .empty .proceed = some (.empty, c', fx) ∧
      .run runner.id input ∈ fx ∧ input.groups.map RunGroup.artifact = ["/bin/p"] := by
  refine ⟨_, _, _, rfl, List.mem_cons_of_mem _ (List.mem_singleton_self _), ?_⟩
  show [RunOrder.artifactOf [(older u).forGroups u.groupIds]
    (Composition.withDefaults composition.settings group)] = ["/bin/p"]
  have hone : [(older u).forGroups u.groupIds].filter (fun b => b.groupIds.contains group.id) =
      [(older u).forGroups u.groupIds] := by
    rw [hids]
    rfl
  exact congrArg (fun artifact => [artifact]) (RunOrder.artifactOf_of_filter rfl hone)

theorem tabular : composition.Tabular where
  settings := List.pairwise_singleton _ _
  groups := by simp [composition, group, Table.Sorted]

end Reuse

/-- The group is run with the artifact from the cache, which has another group's id there. -/
theorem run_supplied_of_reuse : ∃ (u : BuildUnit) (is : List CallInput) (fx fx' : List Effect)
    (c' : Call) (input : RunInput),
    Follows Reuse.engine
      (orchestration Reuse.engine "run" false Reuse.composition ⟨none, none, false⟩) is
      (Reuse.supplied u) fx ∧
    (Reuse.supplied u).step Reuse.engine .empty .proceed = some (.empty, c', fx') ∧
    .run Reuse.runner.id input ∈ fx' ∧
    input.groups.map RunGroup.artifact = ["/bin/p"] ∧
    ∃ p v, c'.phase = .running p ∧ Reuse.composition.validate = .ok v ∧
      input.Supplied Reuse.engine Reuse.composition Reuse.runner.id p.builds ∧
      input.total = v.total ∧ input.groups.map RunGroup.instances = v.counts := by
  obtain ⟨u, hbegin, hids⟩ := Reuse.begins
  obtain ⟨l, fx, hfinds⟩ := Reuse.finds u
  obtain ⟨c', fx', input, hstep, hrun, hartifact⟩ := Reuse.runs hids
  have hfollows : Follows Reuse.engine
      (orchestration Reuse.engine "run" false Reuse.composition ⟨none, none, false⟩)
      ([] ++ [.proceed]) (Reuse.supplied u) ([] ++ fx) := by
    rw [hbegin]
    exact Follows.start.next hfinds
  exact ⟨u, _, _, fx', c', input, hfollows, hstep, hrun, hartifact,
    hfollows.run_supplied Reuse.tabular (fun _ => .nil) hstep hrun⟩

end Call

end Conductor
