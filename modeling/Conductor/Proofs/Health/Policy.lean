import Conductor.Proofs.Health.Table
import Mathlib.Logic.Basic
/-!
# Health — what a policy objects to

Whether a run may start is decided by what the checks and the fixes of its runner answer.
`HealthPolicy.Objects` says of these answers what a policy has against them. The policy
itself looks at a report of them, in which the fixes that were not tried are left out or
omitted; that this makes no difference is `rejection?_report`.
-/

namespace Conductor

namespace HealthPolicy

/-- What a policy has against the trials of a runner. -/
def Objects (p : HealthPolicy) (trials : List Trial) : Rejection → Prop
  | .failedFixes => p.abortOnFailedFixes = true ∧ p.fix = true ∧
      ∃ t ∈ trials, t.Fails ∧ ∃ e, t.fix = some (.error e)
  | .abortedChecks => p.abortOnAbortedChecks = true ∧ ∃ t ∈ trials, ∃ e, t.check = .error e
  | .failedChecks => p.abortOnFailedChecks = true ∧
      ∃ t ∈ trials, ∀ message, t.check ≠ .ok ⟨true, message⟩

end HealthPolicy

namespace Trial

variable {t : Trial} {trials : List Trial} {fix : Bool}

/-- The entry of a fix that failed is that of an item which failed, and was to be fixed. -/
theorem failed_entryOfFix? :
    (∃ entry, t.entryOfFix? fix = some entry ∧ entry.status = .failed) ↔
      fix = true ∧ t.Fails ∧ ∃ e, t.fix = some (.error e) := by
  constructor
  · rintro ⟨entry, hentry, hstatus⟩
    unfold entryOfFix? at hentry
    split at hentry
    case h_6 e message hfix hcheck =>
      exact ⟨rfl, ⟨message, hcheck⟩, e, hfix⟩
    -- every other entry has another status
    all_goals
      cases hentry
      try cases hstatus
  · rintro ⟨rfl, ⟨message, hcheck⟩, e, hfix⟩
    refine ⟨⟨t.name, .failed, e.text⟩, ?_, rfl⟩
    unfold entryOfFix?
    rw [hfix, hcheck]

theorem aborted_entryOfCheck : t.entryOfCheck.status = .aborted ↔ ∃ e, t.check = .error e := by
  unfold entryOfCheck
  split <;> simp_all

theorem ok_entryOfCheck :
    t.entryOfCheck.status = .ok ↔ ∃ message, t.check = .ok ⟨true, message⟩ := by
  unfold entryOfCheck
  split <;> simp_all

/-- Some fix in the report failed. -/
theorem fixesSucceeded_report : ¬ (report fix trials).fixesSucceeded ↔
    fix = true ∧ ∃ t ∈ trials, t.Fails ∧ ∃ e, t.fix = some (.error e) := by
  have hentries : ¬ (report fix trials).fixesSucceeded ↔
      ∃ t ∈ trials, ∃ entry, t.entryOfFix? fix = some entry ∧ entry.status = .failed := by
    simp only [HealthReport.fixesSucceeded, report, List.all_eq_true, List.mem_filterMap,
      decide_eq_true_eq, not_forall, not_not]
    constructor
    · rintro ⟨entry, ⟨t, ht, hentry⟩, hstatus⟩
      exact ⟨t, ht, entry, hentry, hstatus⟩
    · rintro ⟨t, ht, entry, hentry, hstatus⟩
      exact ⟨entry, ⟨t, ht, hentry⟩, hstatus⟩
  rw [hentries]
  constructor
  · rintro ⟨t, ht, hfailed⟩
    obtain ⟨hfix, hcase⟩ := failed_entryOfFix?.1 hfailed
    exact ⟨hfix, t, ht, hcase⟩
  · rintro ⟨hfix, t, ht, hcase⟩
    exact ⟨t, ht, failed_entryOfFix?.2 ⟨hfix, hcase⟩⟩

/-- Some check in the report could not be completed. -/
theorem hasAborted_report : (report fix trials).hasAborted ↔
    ∃ t ∈ trials, ∃ e, t.check = .error e := by
  simp [HealthReport.hasAborted, report, aborted_entryOfCheck]

/-- Some check in the report did not pass. -/
theorem checksSucceeded_report : ¬ (report fix trials).checksSucceeded ↔
    ∃ t ∈ trials, ∀ message, t.check ≠ .ok ⟨true, message⟩ := by
  simp [HealthReport.checksSucceeded, report, ok_entryOfCheck]

end Trial

namespace HealthPolicy

variable {p : HealthPolicy} {trials : List Trial} {reason : Rejection}

/-- **A policy looks at the report of trials**, and rejects it where it has something
against the trials. -/
theorem rejection?_report (p : HealthPolicy) (trials : List Trial) :
    match p.rejection? (Trial.report p.fix trials) with
    | some reason => p.Objects trials reason
    | none => ∀ reason, ¬ p.Objects trials reason := by
  have hfixes :
      (p.abortOnFailedFixes = true ∧ ¬ (Trial.report p.fix trials).fixesSucceeded = true) ↔
        p.Objects trials .failedFixes := and_congr_right fun _ => Trial.fixesSucceeded_report
  have haborted : (p.abortOnAbortedChecks = true ∧ (Trial.report p.fix trials).hasAborted = true) ↔
      p.Objects trials .abortedChecks := and_congr_right fun _ => Trial.hasAborted_report
  have hchecks : (p.abortOnFailedChecks = true ∧
        ¬ (Trial.report p.fix trials).checksSucceeded = true) ↔
      p.Objects trials .failedChecks := and_congr_right fun _ => Trial.checksSucceeded_report
  unfold rejection?
  by_cases h₁ : p.Objects trials .failedFixes
  · rw [if_pos (hfixes.2 h₁)]
    exact h₁
  rw [if_neg (mt hfixes.1 h₁)]
  by_cases h₂ : p.Objects trials .abortedChecks
  · rw [if_pos (haborted.2 h₂)]
    exact h₂
  rw [if_neg (mt haborted.1 h₂)]
  by_cases h₃ : p.Objects trials .failedChecks
  · rw [if_pos (hchecks.2 h₃)]
    exact h₃
  rw [if_neg (mt hchecks.1 h₃)]
  intro reason
  cases reason with
  | failedFixes => exact h₁
  | abortedChecks => exact h₂
  | failedChecks => exact h₃

end HealthPolicy

end Conductor
