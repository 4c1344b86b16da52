import Conductor.Proofs.Composition.WellFormed
/-!
# Compositions — what is accepted

What validation accepts, for a run or for a build, and what it gives
(`Composition.validateFor_eq_ok_iff`). The purpose matters to the settings only
(`Settings.Accepted`): of the groups and of the total both purposes ask that they fit. So a law
about two validations — of one composition for both purposes, or of a composition and of one
made from it — is a law about the settings and one about the groups.
-/

namespace Conductor

/-- The settings are accepted for a purpose, and the selectors read from them. -/
structure Settings.Accepted (purpose : Purpose) (s : Settings) (builder : Selector)
    (runner : Option Selector) : Prop where
  plan : ¬ Text.AllBlank s.plan
  case : purpose = .run → ¬ Text.AllBlank s.case
  builder : Selector.parse s.builder = .ok builder
  runner : Composition.runnerFor purpose s = .ok runner

/-- The total is not among what is accepted or refused in the settings. -/
theorem Settings.Accepted.withTotal {purpose : Purpose} {s : Settings} {builder : Selector}
    {runner : Option Selector} (h : s.Accepted purpose builder runner) (total : Nat) :
    Settings.Accepted purpose { s with total } builder runner :=
  ⟨h.plan, h.case, h.builder, h.runner⟩

namespace Composition

variable {purpose : Purpose} {c : Composition} {v : ValidComposition} {ns : List Nat}

/-- Settings that are accepted have no violations, if there are groups. -/
theorem settingsViolations_of_accepted {builder : Selector} {runner : Option Selector}
    (h : c.settings.Accepted purpose builder runner) (hgroups : c.groups ≠ []) :
    settingsViolations purpose c = [] :=
  settingsViolations_eq_nil.2 ⟨h.plan, h.case, ⟨_, h.builder⟩, ⟨_, h.runner⟩, hgroups⟩

/-- **What is accepted, and what is made of it.** Validation gives what has the selectors read
from the settings, numbers with which the groups fit, and the composition completed with these
numbers; and it gives nothing else. -/
theorem validateFor_eq_ok_iff : validateFor purpose c = .ok v ↔
    c.settings.Accepted purpose v.builder v.runner ∧ c.groups ≠ [] ∧
      Fits c.settings.total c.groups v.counts ∧ v.composition = complete c v.counts := by
  constructor
  · intro h
    obtain ⟨hnil, -⟩ := validateFor_eq_ok h
    obtain ⟨hsettings, ns, hfits⟩ := violations_eq_nil_iff.1 hnil
    obtain ⟨hplan, hcase, -, -, hgroups⟩ := settingsViolations_eq_nil.1 hsettings
    have hcounts : (walk purpose c).counts = ns := (walk_of_clean purpose hfits.clean).2.1
    unfold validateFor at h
    split at h
    · rename_i hbuilder hrunner
      rw [hcounts] at h
      obtain rfl := Except.ok.inj h
      exact ⟨⟨hplan, hcase, hbuilder, hrunner⟩, hgroups, hfits, rfl⟩
    · exact absurd h (by simp)
  · rintro ⟨haccepted, hgroups, hfits, hcomposition⟩
    have hnil : violations purpose c = [] :=
      violations_eq_nil_iff.2 ⟨settingsViolations_of_accepted haccepted hgroups, _, hfits⟩
    have hcounts : (walk purpose c).counts = v.counts :=
      (walk_of_clean purpose hfits.clean).2.1
    simp only [validateFor, hnil, haccepted.builder, haccepted.runner, hcounts, ← hcomposition]

end Composition

end Conductor
