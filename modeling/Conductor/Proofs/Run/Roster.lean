import Conductor.Proofs.Decimal.Written
import Conductor.Proofs.Local.Refusals
import Conductor.Proofs.Run.Bookkeeping
import Conductor.Proofs.Text.Separator
import Conductor.Rehearsal.Runners
/-!
# Runs — every instance once

A runner goes through the instances of its input in order, and for each of them it tells the
collector one thing: that the instance has started, or why it has not. Both runners do so
(`RunInput.accounted_by_runners`), the local one unless it is canceled or refuses the input.

The ids that they give out are distinct if those of the groups are. A group may have an id
that looks like that of an instance, but the last bracket of an id is that in front of its
number (`instanceId_inj`).
-/

namespace Conductor

/-! ## Ids of instances -/

/-- The characters of a number with three digits at least. -/
def paddedDigits (n : Nat) : List Char :=
  List.replicate (3 - (Nat.toDigits 10 n).length) '0' ++ Nat.toDigits 10 n

theorem toList_instanceId (group : String) (n : Nat) :
    (instanceId group n).toList = group.toList ++ '[' :: (paddedDigits n ++ [']']) := by
  have hlength : (toString n).length = (Nat.toDigits 10 n).length := by
    rw [← String.length_toList, Decimal.toList_toString]
  simp only [instanceId, Decimal.zeros, paddedDigits, String.toList_append, String.toList_ofList,
    Decimal.toList_toString, hlength, List.append_assoc]
  rfl

theorem allDigits_paddedDigits (n : Nat) : Decimal.AllDigits (paddedDigits n) := by
  intro c hc
  rcases List.mem_append.1 hc with hc | hc
  · rw [List.eq_of_mem_replicate hc]
    rfl
  · exact Decimal.allDigits_toDigits n c hc

/-- The zeros in front do not change the number. -/
theorem paddedDigits_injective {n m : Nat} (h : paddedDigits n = paddedDigits m) : n = m := by
  have hvalue : ∀ k, Decimal.natOf (paddedDigits k) = k := by
    intro k
    rw [paddedDigits, Decimal.natOf_append, Decimal.natOf_zeros, Decimal.natOf_toDigits, mul_zero,
      zero_add]
  rw [← hvalue n, h, hvalue m]

/-- **An id tells the group and the number**, whatever the group is called. -/
theorem instanceId_inj {group group' : String} {n m : Nat}
    (h : instanceId group n = instanceId group' m) : group = group' ∧ n = m := by
  have hnone : ∀ k, '[' ∉ paddedDigits k ++ [']'] := by
    intro k hmem
    rcases List.mem_append.1 hmem with hmem | hmem
    · exact (allDigits_paddedDigits k).not_mem (by decide) hmem
    · exact absurd hmem (by decide)
  have hchars := congrArg String.toList h
  rw [toList_instanceId, toList_instanceId] at hchars
  obtain ⟨hgroup, hdigits⟩ := Text.cut_last (hnone n) (hnone m) hchars
  exact ⟨String.toList_injective hgroup, paddedDigits_injective (List.append_cancel_right hdigits)⟩

/-! ## Accounts -/

namespace Collector.Action

/-- The instance has started. -/
def isManage : Collector.Action → Bool
  | .manage _ _ _ => true
  | _ => false

/-- The instance has not started. -/
def isFailStart : Collector.Action → Bool
  | .failStart _ _ => true
  | _ => false

end Collector.Action

namespace RunInput

open Collector.Action (registered isManage isFailStart)

variable {input : RunInput} {actions : List Collector.Action} {out : RunOutput}

/-- The ids of the instances of a run, group by group and by their numbers. -/
def instanceIds (r : RunInput) : List String :=
  r.groups.flatMap fun g => (List.range g.instances).map (instanceId g.id)

/-- **Every instance is accounted for**, once. -/
structure Accounted (input : RunInput) (actions : List Collector.Action) (out : RunOutput) :
    Prop where
  /-- Each action is about one instance, and they are about the instances in order. -/
  each : actions.map registered = input.instanceIds.map fun id => [id]
  distinct : (actions.flatMap registered).Nodup
  runId : out.runId = input.runId
  started : out.started = actions.countP isManage
  failedToStart : out.failedToStart = actions.countP isFailStart
  total : out.started + out.failedToStart = (input.groups.map RunGroup.instances).sum

theorem length_instanceIds :
    input.instanceIds.length = (input.groups.map RunGroup.instances).sum := by
  simp [instanceIds, List.length_flatMap]

/-- Groups with distinct ids have instances with distinct ids. -/
theorem nodup_instanceIds (h : (input.groups.map RunGroup.id).Nodup) : input.instanceIds.Nodup := by
  have hgroups : input.groups.Pairwise fun g g' => g.id ≠ g'.id := List.pairwise_map.1 h
  refine List.nodup_flatMap.2 ⟨fun g _ => ?_, hgroups.imp fun {g g'} hne => ?_⟩
  · refine List.nodup_range.map fun n m heq => ?_
    exact (instanceId_inj heq).2
  · intro id hid hid'
    obtain ⟨n, -, rfl⟩ := List.mem_map.1 hid
    obtain ⟨m, -, heq⟩ := List.mem_map.1 hid'
    exact hne (instanceId_inj heq).1.symm

theorem map_id_slots (input : RunInput) : input.slots.map InstanceSlot.id = input.instanceIds := by
  rw [slots, List.map_flatMap]
  refine List.flatMap_congr fun g _ => ?_
  rw [slotsOf, List.map_map]
  rfl

/-- **One action for each instance** is an account of all: those that do not start an instance
give it up. -/
theorem accounted_of_each (distinct : (input.groups.map RunGroup.id).Nodup)
    (each : actions.map registered = input.instanceIds.map fun id => [id])
    (hout : out = ⟨input.runId, actions.countP isManage, actions.countP fun a => !isManage a⟩) :
    input.Accounted actions out := by
  have hflat : actions.flatMap registered = input.instanceIds := by
    rw [List.flatMap_def, each, ← List.flatMap_def, List.flatMap_singleton']
  have hfailed : ∀ a ∈ actions, (!isManage a) = isFailStart a := by
    intro a ha
    have hmem : registered a ∈ input.instanceIds.map fun id => [id] :=
      each ▸ List.mem_map_of_mem ha
    obtain ⟨id, -, hid⟩ := List.mem_map.1 hmem
    cases a with
    | manage id output errors => rfl
    | failStart id reason => rfl
    | read index channel => cases hid
    | quit index channel => cases hid
  have hcount : (actions.countP fun a => !isManage a) = actions.countP isFailStart :=
    List.countP_congr fun a ha => by rw [hfailed a ha]
  have hlength : actions.length = (input.groups.map RunGroup.instances).sum := by
    rw [← length_instanceIds, ← List.length_map (f := registered), each, List.length_map]
  have htotal := List.length_eq_countP_add_countP isManage (l := actions)
  simp only [Bool.not_eq_true, Bool.decide_eq_false] at htotal
  subst hout
  refine ⟨each, ?_, rfl, rfl, hcount, ?_⟩
  · rw [hflat]
    exact nodup_instanceIds distinct
  · exact htotal.symm.trans hlength

end RunInput

/-! ## Runners by script -/

namespace Rehearsal.StockRunner

open Collector.Action (registered isManage)

variable {r : StockRunner} {input : RunInput} {out : RunOutput}

/-- A script starts its instance, or says why not. -/
theorem registered_start (s : InstanceScript) (id : String) : registered (s.start id) = [id] := by
  unfold InstanceScript.start
  split <;> rfl

/-- Instance by instance the scripts are used up. -/
theorem starts_eq : r.starts input =
    input.instanceIds.mapIdx fun place id => (r.scripts[place]?.getD r.standard).start id := by
  rw [← RunInput.map_id_slots]
  refine List.ext_getElem? fun place => ?_
  simp [starts, scriptAt, Function.comp_def]

theorem map_registered_starts :
    (r.starts input).map registered = input.instanceIds.map fun id => [id] := by
  rw [starts_eq]
  refine List.ext_getElem? fun place => ?_
  simp [registered_start, Function.comp_def]

theorem output_eq : r.output input = ⟨input.runId, (r.starts input).countP isManage,
    (r.starts input).countP fun a => !isManage a⟩ := by
  have hstart : isStart = isManage := by
    funext a
    cases a <;> rfl
  simp only [output, List.partition_eq_filter_filter, List.countP_eq_length_filter, hstart]
  rfl

/-- What a run returns is an account of it. -/
theorem accounted (distinct : (input.groups.map RunGroup.id).Nodup)
    (h : (r.script input).result = .ok out) : input.Accounted (r.script input).starts out := by
  have hstarts : (r.script input).starts = r.starts input := by
    unfold script
    split <;> rfl
  have hout : out = r.output input := by
    unfold script at h
    split at h
    · cases h
    · dsimp only at h
      split at h
      · cases h
      · exact (Except.ok.inj h).symm
  rw [hstarts]
  exact RunInput.accounted_of_each distinct map_registered_starts (hout.trans output_eq)

end Rehearsal.StockRunner

/-! ## The local runner -/

namespace Local

open Collector.Action (registered isManage)

variable {launcher : Launcher} {d : Directories} {input : RunInput} {canceled : Nat → Bool}
  {t : FileTree} {out : RunOutput} {place : Nat} {ss : List InstanceSlot}

/-- A run that is not stopped has launched all instances. -/
theorem map_slot_launchAll (h : (launchAll launcher d input canceled place t ss).2.1 = false) :
    (launchAll launcher d input canceled place t ss).1.map Launch.slot = ss := by
  induction ss generalizing place t with
  | nil => rfl
  | cons s ss ih =>
    simp only [launchAll] at h ⊢
    split at h
    · cases h
    · rename_i hgoes
      rw [if_neg hgoes]
      exact congrArg (s :: ·) (ih h)

/-- A run that is not canceled is not stopped, -/
theorem not_stopped (h : ∀ place, canceled place = false) :
    (launchAll launcher d input canceled place t ss).2.1 = false := by
  induction ss generalizing place t with
  | nil => rfl
  | cons s ss ih =>
    simp only [launchAll, h, Bool.false_eq_true, if_false]
    exact ih

/-- and returns, if the runner does not complain. -/
theorem returns (hfault : inputFault? input = none) (h : ∀ place, canceled place = false) :
    ∃ out, (run launcher d canceled input t).1.result = .ok out := by
  refine ⟨outputOf input.runId (launchAll launcher d input canceled 0 t input.slots).1, ?_⟩
  simp only [run, hfault, not_stopped h, Bool.false_eq_true, if_false]

theorem registered_action (l : Launch) : registered l.action = [l.slot.id] := by
  unfold Launch.action
  split <;> rfl

theorem outputOf_eq (runId : String) (ls : List Launch) : outputOf runId ls =
    ⟨runId, (ls.map Launch.action).countP isManage,
      (ls.map Launch.action).countP fun a => !isManage a⟩ := by
  have hstarted : Launch.isStarted = fun l => isManage l.action := by
    funext l
    unfold Launch.isStarted Launch.action
    split <;> rfl
  simp only [outputOf, ← List.countP_eq_length_filter, List.countP_map, hstarted]
  rfl

/-- What a run returns is an account of it. -/
theorem accounted (distinct : (input.groups.map RunGroup.id).Nodup)
    (h : (run launcher d canceled input t).1.result = .ok out) :
    input.Accounted ((run launcher d canceled input t).1.launches.map Launch.action) out := by
  unfold run at h ⊢
  cases hfault : inputFault? input with
  | some e =>
    rw [hfault] at h
    cases h
  | none =>
    rw [hfault] at h
    dsimp only at h ⊢
    split at h
    · cases h
    · rename_i hstopped
      have hslots := map_slot_launchAll (Bool.eq_false_iff.2 hstopped)
      refine RunInput.accounted_of_each distinct ?_ ((Except.ok.inj h).symm.trans (outputOf_eq _ _))
      have hids : input.instanceIds = _ :=
        (RunInput.map_id_slots input).symm.trans (congrArg (List.map InstanceSlot.id) hslots.symm)
      rw [hids, List.map_map, List.map_map, List.map_map]
      exact List.map_congr_left fun l _ => registered_action l

/-- The runner refuses an input: it does the same whatever could be launched, which is
nothing, and it keeps the processes that it has. -/
structure Refuses (d : Directories) (canceled : Nat → Bool) (input : RunInput) (t : FileTree)
    (reason : String) : Prop where
  run : ∀ launcher, run launcher d canceled input t = (⟨[], .error (.invalidInput reason)⟩, t)
  children : ∀ c : Children, c.afterRun input ⟨[], .error (.invalidInput reason)⟩ = c

/-- A complaint about the input is made before anything is launched. -/
theorem refuses {reason : String}
    (h : (run launcher d canceled input t).1.result = .error (.invalidInput reason)) :
    Refuses d canceled input t reason := by
  have hfault := result_run_iff.1 h
  refine ⟨fun launcher' => ?_, fun c => ?_⟩
  · rw [Local.run, hfault]
  · rw [Children.afterRun, hfault]

end Local

namespace RunInput

variable {input : RunInput}

/-- **Runners account for every instance exactly once**, whatever the groups are called as
long as no two of them have one id. A runner by script uses its scripts one after the other,
and then the standard one; and the local runner launches nothing if it complains about the
input. -/
theorem accounted_by_runners (distinct : (input.groups.map RunGroup.id).Nodup) :
    (∀ r : Rehearsal.StockRunner,
      (r.script input).starts = (input.instanceIds.mapIdx fun place id =>
        (r.scripts[place]?.getD r.standard).start id) ∧
      ∀ out, (r.script input).result = .ok out →
        input.Accounted (r.script input).starts out) ∧
    (∀ launcher d canceled t,
      (∀ out, (Local.run launcher d canceled input t).1.result = .ok out →
        input.Accounted ((Local.run launcher d canceled input t).1.launches.map
          Local.Launch.action) out) ∧
      ∀ reason, (Local.run launcher d canceled input t).1.result = .error (.invalidInput reason) →
        Local.Refuses d canceled input t reason) := by
  refine ⟨fun r => ⟨?_, fun out h => r.accounted distinct h⟩, fun launcher d canceled t =>
    ⟨fun out h => Local.accounted distinct h, fun reason h => Local.refuses h⟩⟩
  rw [← Rehearsal.StockRunner.starts_eq]
  unfold Rehearsal.StockRunner.script
  split <;> rfl

/-- Two instances of a group, and one of a group that is called like the first of them. -/
def lookalikes : RunInput where
  runId := "run"
  plan := "plan"
  case := "case"
  total := 3
  groups := [⟨"a", 2, "/bin/a", [], .object []⟩, ⟨"a[000]", 1, "/bin/a", [], .object []⟩]
  config := .object []

/-- A group that has nothing to run. -/
def hollow : RunInput := { lookalikes with groups := [⟨"a", 1, "", [], .object []⟩] }

/-- A runner by script that starts all instances but the second. -/
def stock : Rehearsal.StockRunner :=
  ⟨[.silent, .absent "no file"], .succeeds, .returns false none⟩

/-- A launcher that finds no program. -/
def missing : Local.Launcher := fun t _ => (.error .notFound, t)

/-- The instances are told apart, the local runner gives all of them up without a program, and
without an artifact it refuses. -/
theorem accounted_by_runners_lookalikes :
    lookalikes.instanceIds = ["a[000]", "a[001]", "a[000][000]"] ∧
      lookalikes.Accounted (stock.script lookalikes).starts ⟨"run", 2, 1⟩ ∧
      (∃ out, (Local.run missing ⟨"/home"⟩ (fun _ => false) lookalikes .empty).1.result = .ok out ∧
        lookalikes.Accounted ((Local.run missing ⟨"/home"⟩ (fun _ => false) lookalikes
          .empty).1.launches.map Local.Launch.action) out) ∧
      Local.Refuses ⟨"/home"⟩ (fun _ => false) hollow .empty "group a has no artifact" := by
  have hids : (lookalikes.groups.map RunGroup.id).Nodup := by decide
  have hid : (hollow.groups.map RunGroup.id).Nodup := by decide
  obtain ⟨hstock, hlocal⟩ := accounted_by_runners hids
  obtain ⟨-, hhollow⟩ := accounted_by_runners hid
  have hfault : Local.inputFault? lookalikes = none := rfl
  have hreturns : ∃ out, (Local.run missing ⟨"/home"⟩ (fun _ => false) lookalikes
      .empty).1.result = .ok out := Local.returns hfault fun _ => rfl
  obtain ⟨out, hout⟩ := hreturns
  have hrefuses := (hhollow missing ⟨"/home"⟩ (fun _ => false) .empty).2 _ rfl
  exact ⟨by decide, (hstock stock).2 _ rfl, ⟨out, hout, (hlocal _ _ _ _).1 out hout⟩, hrefuses⟩

end RunInput

end Conductor
