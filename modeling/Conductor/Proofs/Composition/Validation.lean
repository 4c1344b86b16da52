import Conductor.Composition.Validation
import Mathlib.Data.List.Nodup
/-!
# Compositions — what validation promises

The walk over the groups only adds violations (`violations_step`), so a walk that ends
without any found none on its way. That each group it took in has an id that is not
blank and was not met before follows by induction on the groups
(`GroupWalk.ids_of_run`). Applying the defaults keeps the ids, so the groups of a
validated composition can be told by their ids (`ValidComposition.ids_nodup`).
-/

namespace Conductor

namespace GroupWalk

variable {total index : Nat} {w : GroupWalk} {g : Group} {gs : List Group}

/-- A step keeps the violations found, and adds that in the id of the group. -/
theorem violations_step (w : GroupWalk) (total index : Nat) (g : Group) :
    ∃ more, (w.step total index g).violations =
      w.violations ++ (g.idViolation? index w.seen).toList ++ more := by
  simp only [step]
  split
  · exact ⟨[], by simp⟩
  · exact ⟨_, rfl⟩

theorem violations_of_step (h : (w.step total index g).violations = []) :
    w.violations = [] ∧ g.idViolation? index w.seen = none := by
  obtain ⟨more, hmore⟩ := violations_step w total index g
  rw [h] at hmore
  simpa [Option.toList_eq_nil_iff] using (List.append_eq_nil_iff.1 hmore.symm).1

theorem violations_of_run (h : (w.run total index gs).violations = []) : w.violations = [] := by
  induction gs generalizing w index with
  | nil => exact h
  | cons g gs ih => exact (violations_of_step (ih h)).1

/-- An id without a violation is not blank, and was not met before. -/
theorem idViolation?_eq_none {seen : List String} (h : g.idViolation? index seen = none) :
    ¬ Text.AllBlank g.id ∧ g.id ∉ seen := by
  unfold Group.idViolation? at h
  split at h
  · cases h
  · rename_i hblank
    split at h
    · cases h
    · rename_i hseen
      exact ⟨hblank, hseen⟩

/-- A violation in an id is that it is blank or that it was met before. -/
theorem of_mem_idViolation? {v : Violation} {seen : List String}
    (h : v ∈ (g.idViolation? index seen).toList) :
    v = .emptyGroupId index ∨ v = .duplicateGroupId g.id := by
  unfold Group.idViolation? at h
  split at h
  · exact .inl (List.mem_singleton.1 h)
  split at h
  · exact .inr (List.mem_singleton.1 h)
  · exact absurd h List.not_mem_nil

theorem seen_step (h : ¬ Text.AllBlank g.id) : (w.step total index g).seen = g.id :: w.seen := by
  simp only [step]
  split <;> simp [h]

/-- **A walk without violations met distinct ids**, none of them blank or seen before. -/
theorem ids_of_run (h : (w.run total index gs).violations = []) :
    (∀ g ∈ gs, ¬ Text.AllBlank g.id ∧ g.id ∉ w.seen) ∧ (gs.map Group.id).Nodup := by
  induction gs generalizing w index with
  | nil => simp
  | cons g gs ih =>
    have hstep : (w.step total index g).violations = [] := violations_of_run h
    obtain ⟨hblank, hseen⟩ := idViolation?_eq_none (violations_of_step hstep).2
    obtain ⟨hrest, hnodup⟩ := ih h
    -- the groups that follow were compared with this one too
    rw [seen_step hblank] at hrest
    refine ⟨List.forall_mem_cons.2 ⟨⟨hblank, hseen⟩, fun g' hg' => ?_⟩,
      List.nodup_cons.2 ⟨fun hmem => ?_, hnodup⟩⟩
    · exact ⟨(hrest g' hg').1, mt (List.mem_cons_of_mem _) (hrest g' hg').2⟩
    · obtain ⟨g', hg', hid⟩ := List.mem_map.1 hmem
      exact (hrest g' hg').2 (by simp [hid])

end GroupWalk

namespace Composition

variable {purpose : Purpose} {c : Composition} {v : ValidComposition} {vs : List Violation}

/-- A violation of the total is that the sum overflows or that it differs from the total. -/
theorem of_mem_totalViolations {violation : Violation} {total : Nat} {w : GroupWalk}
    (h : violation ∈ totalViolations total w) :
    violation = .totalOverflow (totalOf w.counts) ∨
      violation = .totalMismatch total (totalOf w.counts) := by
  unfold totalViolations at h
  split at h
  · exact .inl (List.mem_singleton.1 (List.mem_ite_nil_right.1 h).2)
  · exact .inr (List.mem_singleton.1 (List.mem_ite_nil_right.1 h).2)

/-- What is validated has no violations, and is the composition completed. -/
theorem validateFor_eq_ok (h : validateFor purpose c = .ok v) :
    violations purpose c = [] ∧ v.composition = complete c (walk purpose c).counts := by
  unfold validateFor at h
  split at h
  · rename_i hnil _ _
    cases h
    exact ⟨hnil, rfl⟩
  · cases h

theorem violations_of_error (h : validateFor purpose c = .error vs) :
    vs = violations purpose c := by
  unfold validateFor at h
  split at h
  · cases h
  · cases h
    rfl

/-- A composition with violations is told all of them. -/
theorem validateFor_eq_error (h : violations purpose c ≠ []) :
    validateFor purpose c = .error (violations purpose c) := by
  cases hv : validateFor purpose c with
  | ok v => exact absurd (validateFor_eq_ok hv).1 h
  | error vs => rw [violations_of_error hv]

/-- The groups of a validated composition are those it was made from, with the defaults. -/
theorem groups_of_validateFor (h : validateFor purpose c = .ok v) :
    v.composition.groups = c.groups.map (withDefaults c.settings) := by
  rw [(validateFor_eq_ok h).2]
  rfl

/-- Completing a composition keeps the ids of its groups. -/
theorem ids_complete (counts : List Nat) :
    (complete c counts).groups.map Group.id = c.groups.map Group.id := by
  simp [complete, applyDefaults, withDefaults]

/-- A composition that is accepted has groups with distinct ids, -/
theorem given_ids_nodup (h : validateFor purpose c = .ok v) : (c.groups.map Group.id).Nodup := by
  have hnil := (validateFor_eq_ok h).1
  exact (GroupWalk.ids_of_run (List.append_eq_nil_iff.1 hnil).1).2

/-- **and so has what it is validated to.** -/
theorem ids_nodup (h : validateFor purpose c = .ok v) :
    (v.composition.groups.map Group.id).Nodup := by
  rw [(validateFor_eq_ok h).2, ids_complete]
  exact given_ids_nodup h

end Composition

end Conductor
