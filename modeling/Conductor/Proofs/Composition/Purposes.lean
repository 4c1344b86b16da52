import Conductor.Proofs.Composition.Acceptance
/-!
# Compositions — for a build and for a run

A build asks for less than a run. Two violations are of a run only: that the case is blank, and
that the runner is empty (`Violation.isOfRun`). Validation for a build finds what validation for
a run finds, without these two.

What is found in the settings is compared part by part (`settingsViolations_build`). Behind the
settings both validations take the same steps, although a step looks back at what was found: none
of the two violations blames the size of a group, so the walk for a run without them is the walk
for a build (`GroupWalk.run_forBuild`).
-/

namespace Conductor

/-- The violation is one of a run only. -/
def Violation.isOfRun : Violation → Bool
  | .emptyCase | .malformedSelector .runner .empty => true
  | _ => false

namespace Violation

variable {vs vs' : List Violation} {g : Group} {id : String}

/-- The violations that are of a build too. -/
def ofBuild (vs : List Violation) : List Violation := vs.filter fun v => !v.isOfRun

@[simp] theorem ofBuild_append : ofBuild (vs ++ vs') = ofBuild vs ++ ofBuild vs' :=
  List.filter_append ..

theorem ofBuild_eq_self (h : ∀ v ∈ vs, v.isOfRun = false) : ofBuild vs = vs :=
  List.filter_eq_self.2 fun v hv => by simp [h v hv]

theorem ofRun_eq_nil (h : ∀ v ∈ vs, v.isOfRun = false) : vs.filter (·.isOfRun) = [] :=
  List.filter_eq_nil_iff.2 fun v hv => by simp [h v hv]

/-- What is of a run only does not blame the size of a group. -/
theorem any_blamesSizing_ofBuild :
    (ofBuild vs).any (·.blamesSizing id) = vs.any (·.blamesSizing id) := by
  have hblames : ∀ v : Violation, (!v.isOfRun && v.blamesSizing id) = v.blamesSizing id := by
    intro v
    cases v <;> simp [isOfRun, blamesSizing]
  simp only [ofBuild, List.any_filter, hblames]

/-- So what is said of a size does not depend on it. -/
theorem violation?_ofBuild {f : SizingFault} :
    f.violation? g (ofBuild vs) = f.violation? g vs := by
  cases f <;> simp only [SizingFault.violation?, any_blamesSizing_ofBuild]

end Violation

/-! ## The groups -/

namespace GroupWalk

open Violation

variable {total index : Nat} {w : GroupWalk} {g : Group} {gs : List Group}

theorem isOfRun_idViolation? {v : Violation} {seen : List String}
    (h : v ∈ (g.idViolation? index seen).toList) : v.isOfRun = false := by
  rcases of_mem_idViolation? h with rfl | rfl
  · rfl
  · rfl

theorem isOfRun_violation? {v : Violation} {f : SizingFault} {reported : List Violation}
    (h : v ∈ (f.violation? g reported).toList) : v.isOfRun = false := by
  unfold SizingFault.violation? at h
  split at h
  · rw [List.mem_singleton.1 h]
    rfl
  · rw [List.mem_singleton.1 h]
    rfl
  · rw [List.mem_singleton.1 h]
    rfl
  split at h
  · exact absurd h List.not_mem_nil
  · rw [List.mem_singleton.1 h]
    rfl

/-- The walk as it is for a build. -/
def forBuild (w : GroupWalk) : GroupWalk := { w with violations := ofBuild w.violations }

/-- **A step does not look at what is of a run only**, and finds nothing of that kind. -/
theorem step_forBuild : w.forBuild.step total index g = (w.step total index g).forBuild := by
  have hid : ofBuild (g.idViolation? index w.seen).toList = (g.idViolation? index w.seen).toList :=
    ofBuild_eq_self fun v => isOfRun_idViolation?
  cases hsize : g.sizing.resolve total with
  | ok n => simp only [step, hsize, forBuild, ofBuild_append, hid]
  | error f =>
    have hreported : ofBuild w.violations ++ (g.idViolation? index w.seen).toList =
        ofBuild (w.violations ++ (g.idViolation? index w.seen).toList) := by
      rw [ofBuild_append, hid]
    have hfault : ∀ vs, ofBuild (vs ++ (f.violation? g vs).toList) =
        ofBuild vs ++ (f.violation? g vs).toList := by
      intro vs
      rw [ofBuild_append, ofBuild_eq_self fun v => isOfRun_violation?]
    simp only [step, hsize, forBuild, hreported, violation?_ofBuild, hfault]

theorem run_forBuild : w.forBuild.run total index gs = (w.run total index gs).forBuild := by
  induction gs generalizing w index with
  | nil => rfl
  | cons g gs ih => rw [run, step_forBuild, ih, run]

/-- A step finds nothing that is of a run only. -/
theorem ofRun_step : (w.step total index g).violations.filter (·.isOfRun) =
    w.violations.filter (·.isOfRun) := by
  have hid : (g.idViolation? index w.seen).toList.filter (·.isOfRun) = [] :=
    ofRun_eq_nil fun v => isOfRun_idViolation?
  cases hsize : g.sizing.resolve total with
  | ok n => simp only [step, hsize, List.filter_append, hid, List.append_nil]
  | error f =>
    have hfault : ∀ vs, (f.violation? g vs).toList.filter (·.isOfRun) = [] :=
      fun vs => ofRun_eq_nil fun v => isOfRun_violation?
    simp only [step, hsize, List.filter_append, hid, hfault, List.append_nil]

theorem ofRun_run : (w.run total index gs).violations.filter (·.isOfRun) =
    w.violations.filter (·.isOfRun) := by
  induction gs generalizing w index with
  | nil => rfl
  | cons g gs ih => rw [run, ih, ofRun_step]

end GroupWalk

/-! ## The settings -/

/-- A selector text is called empty when it is. -/
theorem Selector.parse_eq_empty {s : String} : parse s = .error .empty ↔ s = "" := by
  unfold parse
  constructor
  · intro h
    split at h
    · assumption
    split at h
    · simp at h
    split at h
    · simp at h
    · dsimp only at h
      split at h <;> simp at h
    · simp at h
  · intro h
    rw [if_pos h]

/-- **What a run asks of the settings beyond a build.** -/
theorem Settings.accepted_run_iff {s : Settings} {builder : Selector} {runner : Option Selector} :
    s.Accepted .run builder runner ↔
      s.Accepted .build builder runner ∧ ¬ Text.AllBlank s.case ∧ s.runner ≠ "" := by
  have hsame : s.runner ≠ "" → Composition.runnerFor .build s = Composition.runnerFor .run s := by
    intro hne
    simp [Composition.runnerFor, hne]
  constructor
  · intro h
    have hne : s.runner ≠ "" := by
      intro hempty
      have hrunner := h.runner
      rw [Composition.runnerFor_run, Selector.parse_eq_empty.2 hempty] at hrunner
      exact absurd hrunner (by simp [Except.map])
    exact ⟨⟨h.plan, by simp, h.builder, (hsame hne).trans h.runner⟩, h.case rfl, hne⟩
  · rintro ⟨h, hcase, hne⟩
    exact ⟨h.plan, fun _ => hcase, h.builder, (hsame hne).symm.trans h.runner⟩

namespace Composition

open Violation

variable {c : Composition} {v : ValidComposition}

/-- Both purposes find the same in a runner, but for one that is empty. -/
theorem selectorViolation_runner (s : Settings) :
    selectorViolation .runner (runnerFor .build s) =
        ofBuild (selectorViolation .runner (runnerFor .run s)) ∧
      (selectorViolation .runner (runnerFor .run s)).filter (·.isOfRun) =
        if s.runner = "" then [.malformedSelector .runner .empty] else [] := by
  by_cases hempty : s.runner = ""
  · have hbuild : runnerFor .build s = .ok none := by simp [runnerFor, hempty]
    have hrun : runnerFor .run s = .error .empty := by
      rw [runnerFor_run, Selector.parse_eq_empty.2 hempty]
      rfl
    rw [hbuild, hrun, if_pos hempty]
    exact ⟨rfl, rfl⟩
  · have hsame : runnerFor .build s = runnerFor .run s := by simp [runnerFor, hempty]
    have hother : ∀ v ∈ selectorViolation .runner (runnerFor .run s), v.isOfRun = false := by
      intro v hv
      rw [runnerFor_run] at hv
      cases hparse : Selector.parse s.runner with
      | ok r => simp [hparse, Except.map, selectorViolation] at hv
      | error e =>
        have hne : e ≠ .empty := by
          rintro rfl
          exact hempty (Selector.parse_eq_empty.1 hparse)
        rw [hparse] at hv
        rw [List.mem_singleton.1 hv]
        cases e <;> simp [isOfRun] at hne ⊢
    rw [hsame, if_neg hempty, ofBuild_eq_self hother]
    exact ⟨rfl, ofRun_eq_nil hother⟩

/-- A build finds in the settings what a run does, but for a blank case and an empty runner. -/
theorem settingsViolations_purposes (c : Composition) :
    settingsViolations .build c = ofBuild (settingsViolations .run c) ∧
      (settingsViolations .run c).filter (·.isOfRun) =
        (if Text.AllBlank c.settings.case then [.emptyCase] else []) ++
          if c.settings.runner = "" then [.malformedSelector .runner .empty] else [] := by
  obtain ⟨hkept, hleft⟩ := selectorViolation_runner c.settings
  have hplan : ∀ v ∈ (if Text.AllBlank c.settings.plan then [Violation.emptyPlan] else []),
      v.isOfRun = false := by
    split <;> simp [isOfRun]
  have hcase : ∀ blank : Prop, [Decidable blank] →
      ofBuild (if blank then [.emptyCase] else []) = [] ∧
        (if blank then [Violation.emptyCase] else []).filter (·.isOfRun) =
          if blank then [.emptyCase] else [] := by
    intro blank _
    split <;> exact ⟨rfl, rfl⟩
  have hbuilder : ∀ v ∈ selectorViolation .builder (Selector.parse c.settings.builder),
      v.isOfRun = false := by
    cases Selector.parse c.settings.builder <;> simp [selectorViolation, isOfRun]
  have hgroups : ∀ v ∈ (if c.groups.isEmpty then [Violation.noGroups] else []),
      v.isOfRun = false := by
    split <;> simp [isOfRun]
  constructor
  · simp only [settingsViolations, ofBuild_append, hkept, ofBuild_eq_self hplan, (hcase _).1,
      ofBuild_eq_self hbuilder, ofBuild_eq_self hgroups]
    simp
  · simp only [settingsViolations, List.filter_append, hleft, ofRun_eq_nil hplan, (hcase _).2,
      ofRun_eq_nil hbuilder, ofRun_eq_nil hgroups]
    simp

/-- No violation of the total is of a run only. -/
theorem isOfRun_totalViolations {v : Violation} {total : Nat} {w : GroupWalk}
    (h : v ∈ totalViolations total w) : v.isOfRun = false := by
  rcases of_mem_totalViolations h with rfl | rfl
  · rfl
  · rfl

/-- The walk for a build is that for a run without what is of a run only. -/
theorem walk_build (c : Composition) : walk .build c = (walk .run c).forBuild := by
  rw [walk, walk, ← GroupWalk.run_forBuild, (settingsViolations_purposes c).1]
  rfl

/-- **What is found for a build, and what is left out.** -/
theorem violations_purposes (c : Composition) :
    violations .build c = ofBuild (violations .run c) ∧
      (violations .run c).filter (·.isOfRun) =
        (if Text.AllBlank c.settings.case then [.emptyCase] else []) ++
          if c.settings.runner = "" then [.malformedSelector .runner .empty] else [] := by
  constructor
  · have htotal : totalViolations c.settings.total (walk .run c).forBuild =
        ofBuild (totalViolations c.settings.total (walk .run c)) :=
      (ofBuild_eq_self fun v => isOfRun_totalViolations).symm
    rw [violations, violations, walk_build, ofBuild_append, htotal]
    rfl
  · rw [violations, List.filter_append, ofRun_eq_nil fun v => isOfRun_totalViolations,
      List.append_nil, walk, GroupWalk.ofRun_run, (settingsViolations_purposes c).2]

/-- The violations that an outcome of validation tells, none if it is a success. -/
def reported : Except (List Violation) ValidComposition → List Violation
  | .ok _ => []
  | .error vs => vs

/-- Validation tells all violations. -/
theorem reported_validateFor (purpose : Purpose) (c : Composition) :
    reported (validateFor purpose c) = violations purpose c := by
  cases h : validateFor purpose c with
  | ok v => exact (validateFor_eq_ok h).1.symm
  | error vs => exact violations_of_error h

/-- **The two purposes agree.** Validation for a build reports what validation for a run does,
in the same order, without what is of a run only; and what is left out is that the case is
blank and that the runner is empty, each once if it is so. So what is valid for a run is valid
for a build with the same outcome, and what is valid for a build is valid for a run exactly if
its case is not blank and its runner not empty. -/
theorem purposes_agree (c : Composition) :
    reported c.validateForBuild = (reported c.validate).filter (fun v => !v.isOfRun) ∧
      (reported c.validate).filter (fun v => v.isOfRun) =
        (if Text.AllBlank c.settings.case then [.emptyCase] else []) ++
          (if c.settings.runner = "" then [.malformedSelector .runner .empty] else []) ∧
      ∀ v, c.validate = .ok v ↔
        c.validateForBuild = .ok v ∧ ¬ Text.AllBlank c.settings.case ∧ c.settings.runner ≠ "" := by
  obtain ⟨hkept, hleft⟩ := violations_purposes c
  have hrun : reported c.validate = violations .run c := reported_validateFor .run c
  have hbuild : reported c.validateForBuild = violations .build c := reported_validateFor .build c
  refine ⟨by rw [hbuild, hrun, hkept, ofBuild], by rw [hrun, hleft], fun v => ?_⟩
  rw [validate, validateForBuild, validateFor_eq_ok_iff, validateFor_eq_ok_iff,
    Settings.accepted_run_iff]
  constructor
  · rintro ⟨⟨haccepted, hcase, hrunner⟩, hgroups⟩
    exact ⟨⟨haccepted, hgroups⟩, hcase, hrunner⟩
  · rintro ⟨⟨haccepted, hgroups⟩, hcase, hrunner⟩
    exact ⟨⟨haccepted, hcase, hrunner⟩, hgroups⟩

end Composition

end Conductor
