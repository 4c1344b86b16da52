import Conductor.Proofs.Composition.Acceptance
import Conductor.Proofs.Composition.Defaults
/-!
# Compositions — validating what is valid

The composition in a validated one is complete: its total is filled in, and its groups carry the
defaults. Validating it again, for the same purpose, changes nothing and gives the same
(`Composition.validateFor_idempotent`).

The second validation meets a total where the first may have inferred one. Groups from which a
total is inferred all have counts, and a count is the same for every total
(`Sizing.Stands.of_inferred`); so the groups fit the sum of their numbers as they fitted before
(`Fits.withTotal`).
-/

namespace Conductor

/-- A size that stands for a number without a total stands for it with any. -/
theorem Sizing.Stands.of_inferred {s : Sizing} {n : Nat} (total : Nat) (h : s.Stands 0 n) :
    s.Stands total n := by
  cases h with
  | count hcount hshare => exact .count hcount hshare
  | share hcount hpositive hunit htotal hround => exact absurd htotal (Nat.lt_irrefl 0)

namespace Composition

variable {purpose : Purpose} {c : Composition} {v : ValidComposition} {s : Settings}
  {total : Nat} {gs : List Group} {ns : List Nat}

/-- **Groups fit the sum of their numbers** when they fit a total, or none. -/
theorem Fits.withTotal (h : Fits total gs ns) : Fits (totalOf ns) gs ns := by
  have hsizes : List.Forall₂ (fun g n => g.sizing.Stands (totalOf ns) n) gs ns := by
    rcases h.total with ⟨hnone, -⟩ | hsum
    · refine h.clean.sizes.imp fun g n hstands => ?_
      rw [hnone] at hstands
      exact hstands.of_inferred _
    · rw [← hsum]
      exact h.clean.sizes
  exact ⟨⟨h.clean.ids, h.clean.distinct, hsizes⟩, .inr rfl⟩

/-- Groups fit as well with the defaults. -/
theorem Fits.withDefaults (h : Fits total gs ns) (s : Settings) :
    Fits total (gs.map (withDefaults s)) ns := by
  have hids : (gs.map (Composition.withDefaults s)).map Group.id = gs.map Group.id := by
    rw [List.map_map]
    rfl
  refine ⟨⟨fun g hg => ?_, hids ▸ h.clean.distinct, ?_⟩, h.total⟩
  · obtain ⟨g₀, hg₀, rfl⟩ := List.mem_map.1 hg
    exact h.clean.ids g₀ hg₀
  · exact List.forall₂_map_left_iff.2 h.clean.sizes

/-- A composition with the sum for its total is complete but for the defaults. -/
theorem complete_eq_applyDefaults (h : c.settings.total = totalOf ns) :
    complete c ns = applyDefaults c := by
  have htotal : (if c.settings.total = 0 then totalOf ns else c.settings.total) =
      c.settings.total := by
    split <;> omega
  rw [complete, htotal]

/-- **Validation is idempotent.** What is in a validated composition is valid again, for the
same purpose and with the same outcome: the composition, the selectors and the numbers. -/
theorem validateFor_idempotent (hparameters : ∀ r ∈ c.settings.run, r.parameters.Sorted)
    (h : validateFor purpose c = .ok v) : validateFor purpose v.composition = .ok v := by
  obtain ⟨haccepted, hgroups, hfits, hcomposition⟩ := validateFor_eq_ok_iff.1 h
  have htotal : v.composition.settings.total = totalOf v.counts := by
    rw [hcomposition]
    exact hfits.total_eq
  refine validateFor_eq_ok_iff.2 ⟨?_, ?_, ?_, ?_⟩
  · rw [hcomposition]
    exact haccepted.withTotal _
  · rw [hcomposition]
    exact mt List.map_eq_nil_iff.1 hgroups
  · rw [htotal, hcomposition]
    exact hfits.withTotal.withDefaults c.settings
  · rw [complete_eq_applyDefaults htotal, hcomposition]
    exact (applyDefaults_complete hparameters).symm

/-- The total of `layered` is inferred and its defaults are applied: the second time there is
nothing left to do. -/
theorem validateFor_idempotent_layered : ∃ v, layered.validate = .ok v ∧
    (∀ r ∈ layered.settings.run, r.parameters.Sorted) ∧
    layered.settings.total = 0 ∧ v.composition.settings.total = 3 ∧
    v.composition.validate = .ok v := by
  obtain ⟨v, hv⟩ := validate_layered
  have hsorted : ∀ r ∈ layered.settings.run, r.parameters.Sorted := by
    simp [layered, Table.Sorted]
  have hagain : v.composition.validate = .ok v := validateFor_idempotent hsorted hv
  obtain rfl : _ = v := Except.ok.inj hv
  exact ⟨_, hv, hsorted, rfl, rfl, hagain⟩

end Composition

end Conductor
