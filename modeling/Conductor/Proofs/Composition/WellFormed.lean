import Conductor.Proofs.Composition.Validation
import Mathlib.Data.List.GetD
/-!
# Compositions — what is well formed

`WellFormed` says what a composition that can be run is, with the number of instances of
each group, and without the walk that validation is. Validation accepts exactly these
compositions and gives their numbers (`validate_exact`). What both purposes ask of the groups
and of the total stands by itself (`Fits`); the settings are all that the purpose matters to.

A size that does not resolve is reported, or something else is: a group of size zero is
passed over only when a violation stands already (`violations_of_step_error`). So a walk
without violations resolved every size, and its numbers are those of the groups
(`GroupWalk.clean_run`).
-/

namespace Conductor

/-! ## Sizes -/

/-- The number of instances a size stands for: its count, or its share of a total that is
given. -/
inductive Sizing.Stands (total : Nat) (s : Sizing) : Nat → Prop
  | count (hcount : 0 < s.count) (hshare : ¬ s.percentage.isPositive) : Stands total s s.count
  | share (hcount : s.count = 0) (hpositive : s.percentage.isPositive)
    (hunit : ¬ Binary64.unit.lt s.percentage) (htotal : 0 < total)
    (hround : 1 ≤ (s.percentage.mulNat total).round) :
    Stands total s (s.percentage.mulNat total).round

namespace Sizing

variable {total n : Nat} {s : Sizing}

theorem Stands.pos (h : s.Stands total n) : 0 < n := by
  cases h with
  | count hcount => exact hcount
  | share _ _ _ _ hround => exact hround

/-- **A size resolves to what it stands for**, and to nothing else. -/
theorem resolve_eq_ok : s.resolve total = .ok n ↔ s.Stands total n := by
  unfold resolve
  constructor
  · intro h
    split at h
    · cases h
    rename_i hboth
    split at h
    · rename_i hcount
      cases h
      exact .count hcount fun hp => hboth ⟨hcount, hp⟩
    rename_i hcount
    split at h
    · cases h
    rename_i hunit
    split at h
    · rename_i hpositive
      split at h
      · cases h
      rename_i htotal
      dsimp only at h
      split at h
      · rename_i hround
        cases h
        exact .share (Nat.eq_zero_of_not_pos hcount) hpositive hunit (Nat.pos_of_ne_zero htotal)
          hround
      · cases h
    · cases h
  · intro h
    cases h with
    | count hcount hshare => simp [hcount, hshare]
    | share hcount hpositive hunit htotal hround =>
      have hround : 0 < (s.percentage.mulNat total).round := hround
      simp [hcount, hpositive, hunit, Nat.ne_of_gt htotal, hround]

end Sizing

/-! ## Groups -/

namespace GroupWalk

variable {total index : Nat} {w : GroupWalk} {g : Group} {gs : List Group} {ns : List Nat}

/-- **A size that does not resolve leaves a violation**: its own, or an older one. -/
theorem violations_of_step_error {f : SizingFault} (h : g.sizing.resolve total = .error f) :
    (w.step total index g).violations ≠ [] := by
  intro hnil
  simp only [step, h] at hnil
  obtain ⟨hold, hnew⟩ := List.append_eq_nil_iff.1 hnil
  rw [hold] at hnew
  cases f <;> simp [SizingFault.violation?] at hnew

/-- A step without violations met a group with an id of its own and a size. -/
theorem step_eq {n : Nat} (hblank : ¬ Text.AllBlank g.id) (hseen : g.id ∉ w.seen)
    (hsize : g.sizing.Stands total n) :
    w.step total index g = ⟨g.id :: w.seen, w.violations, w.counts ++ [n], w.resolved⟩ := by
  simp [step, Sizing.resolve_eq_ok.2 hsize, Group.idViolation?, hblank, hseen]

/-- What the groups have to be for a walk to find nothing. -/
structure Clean (total : Nat) (seen : List String) (gs : List Group) (ns : List Nat) : Prop where
  ids : ∀ g ∈ gs, ¬ Text.AllBlank g.id ∧ g.id ∉ seen
  distinct : (gs.map Group.id).Nodup
  sizes : List.Forall₂ (fun g n => g.sizing.Stands total n) gs ns

/-- The first of clean groups, and the others behind it. -/
theorem clean_cons {seen : List String} {n : Nat} :
    Clean total seen (g :: gs) (n :: ns) ↔
      (¬ Text.AllBlank g.id ∧ g.id ∉ seen ∧ g.sizing.Stands total n) ∧
        Clean total (g.id :: seen) gs ns := by
  constructor
  · rintro ⟨hids, hdistinct, hsizes⟩
    obtain ⟨⟨hblank, hseen⟩, hids⟩ := List.forall_mem_cons.1 hids
    obtain ⟨hnew, hdistinct⟩ := List.nodup_cons.1 hdistinct
    obtain ⟨hsize, hsizes⟩ := List.forall₂_cons.1 hsizes
    refine ⟨⟨hblank, hseen, hsize⟩, fun g' hg' => ⟨(hids g' hg').1, ?_⟩, hdistinct, hsizes⟩
    rw [List.mem_cons, not_or]
    exact ⟨fun heq => hnew (heq ▸ List.mem_map_of_mem hg'), (hids g' hg').2⟩
  · rintro ⟨⟨hblank, hseen, hsize⟩, hids, hdistinct, hsizes⟩
    refine ⟨List.forall_mem_cons.2 ⟨⟨hblank, hseen⟩, fun g' hg' => ?_⟩,
      List.nodup_cons.2 ⟨fun hmem => ?_, hdistinct⟩, .cons hsize hsizes⟩
    · exact ⟨(hids g' hg').1, fun h => (hids g' hg').2 (List.mem_cons_of_mem _ h)⟩
    · obtain ⟨g', hg', hid⟩ := List.mem_map.1 hmem
      exact (hids g' hg').2 (hid ▸ List.mem_cons_self)

/-- A walk over clean groups takes in their numbers and finds nothing. -/
theorem run_of_clean (h : Clean total w.seen gs ns) :
    (w.run total index gs).violations = w.violations ∧
      (w.run total index gs).counts = w.counts ++ ns ∧
      (w.run total index gs).resolved = w.resolved := by
  induction gs generalizing w index ns with
  | nil =>
    cases h.sizes
    exact ⟨rfl, (List.append_nil _).symm, rfl⟩
  | cons g gs ih =>
    obtain _ | ⟨n, ns⟩ := ns
    · cases h.sizes
    obtain ⟨⟨hblank, hseen, hsize⟩, hrest⟩ := clean_cons.1 h
    have hstep : w.step total index g = _ := step_eq hblank hseen hsize
    have hrest : Clean total (w.step total index g).seen gs ns := by
      rw [hstep]
      exact hrest
    obtain ⟨hviolations, hcounts, hresolved⟩ := ih hrest
    rw [hstep] at hviolations hcounts hresolved
    rw [run, hstep]
    exact ⟨hviolations, by rw [hcounts, List.append_assoc]; rfl, hresolved⟩

/-- **A walk that ends without violations met clean groups.** -/
theorem clean_of_run (h : (w.run total index gs).violations = []) :
    ∃ ns, Clean total w.seen gs ns := by
  induction gs generalizing w index with
  | nil => exact ⟨[], by simp, .nil, .nil⟩
  | cons g gs ih =>
    have hstep : (w.step total index g).violations = [] := violations_of_run h
    obtain ⟨hblank, hseen⟩ := idViolation?_eq_none (violations_of_step hstep).2
    obtain ⟨n, hn⟩ : ∃ n, g.sizing.resolve total = .ok n := by
      cases hr : g.sizing.resolve total with
      | ok n => exact ⟨n, rfl⟩
      | error f => exact absurd hstep (violations_of_step_error hr)
    obtain ⟨ns, hns⟩ := ih h
    rw [seen_step hblank] at hns
    exact ⟨n :: ns, clean_cons.2 ⟨⟨hblank, hseen, Sizing.resolve_eq_ok.1 hn⟩, hns⟩⟩

end GroupWalk

/-! ## Compositions -/

namespace Composition

/-- A composition that can be run, with the number of instances of each of its groups. -/
structure WellFormed (c : Composition) (ns : List Nat) : Prop where
  plan : ¬ Text.AllBlank c.settings.plan
  case : ¬ Text.AllBlank c.settings.case
  builder : ∃ b, Selector.parse c.settings.builder = .ok b
  runner : ∃ r, Selector.parse c.settings.runner = .ok r
  groups : c.groups ≠ []
  ids : ∀ g ∈ c.groups, ¬ Text.AllBlank g.id
  distinct : (c.groups.map Group.id).Nodup
  sizes : List.Forall₂ (fun g n => g.sizing.Stands c.settings.total n) c.groups ns
  total : c.settings.total = 0 ∧ totalOf ns ≤ maxTotal ∨ c.settings.total = totalOf ns

variable {purpose : Purpose} {c : Composition} {v : ValidComposition} {ns : List Nat}

theorem selectorViolation_eq_nil {α : Type} {component : Component} {x : Except SelectorError α} :
    selectorViolation component x = [] ↔ ∃ a, x = .ok a := by
  cases x <;> simp [selectorViolation]

theorem runnerFor_run (s : Settings) : runnerFor .run s = (Selector.parse s.runner).map some := by
  simp [runnerFor]

theorem runnerFor_run_ok {s : Settings} :
    (∃ r, runnerFor .run s = .ok r) ↔ ∃ r, Selector.parse s.runner = .ok r := by
  rw [runnerFor_run]
  cases Selector.parse s.runner <;> simp [Except.map]

/-- The settings have no violations: what that is. -/
theorem settingsViolations_eq_nil : settingsViolations purpose c = [] ↔
    ¬ Text.AllBlank c.settings.plan ∧ (purpose = .run → ¬ Text.AllBlank c.settings.case) ∧
      (∃ b, Selector.parse c.settings.builder = .ok b) ∧
      (∃ r, runnerFor purpose c.settings = .ok r) ∧ c.groups ≠ [] := by
  simp only [settingsViolations, List.append_eq_nil_iff, selectorViolation_eq_nil,
    ite_eq_right_iff, List.cons_ne_nil, imp_false, not_and, List.isEmpty_iff, ne_eq, and_assoc]

/-- The total has no violation behind groups that all have a number. -/
theorem totalViolations_eq_nil {total : Nat} {w : GroupWalk} (hresolved : w.resolved) :
    totalViolations total w = [] ↔
      total = 0 ∧ totalOf w.counts ≤ maxTotal ∨ total = totalOf w.counts := by
  unfold totalViolations
  split
  · rename_i hzero
    -- a sum of zero is the total too, but then it is no overflow
    have hsum : total = totalOf w.counts → totalOf w.counts ≤ maxTotal := fun h => by omega
    simpa [hzero] using hsum
  · rename_i hzero
    simp [hresolved, hzero]

/-- A walk over clean groups has the violations of the settings, and their numbers. -/
theorem walk_of_clean (purpose : Purpose)
    (h : GroupWalk.Clean c.settings.total [] c.groups ns) :
    (walk purpose c).violations = settingsViolations purpose c ∧ (walk purpose c).counts = ns ∧
      (walk purpose c).resolved = true :=
  @GroupWalk.run_of_clean _ 0 ⟨[], settingsViolations purpose c, [], true⟩ _ _ h

/-- Groups that a total has room for, with their numbers of instances. Both purposes ask this
of the groups. -/
structure Fits (total : Nat) (gs : List Group) (ns : List Nat) : Prop where
  clean : GroupWalk.Clean total [] gs ns
  total : total = 0 ∧ totalOf ns ≤ maxTotal ∨ total = totalOf ns

/-- The total, given or inferred, is the sum of the numbers. -/
theorem Fits.total_eq {total : Nat} {gs : List Group} (h : Fits total gs ns) :
    (if total = 0 then totalOf ns else total) = totalOf ns := by
  have htotal := h.total
  split <;> omega

/-- **Nothing is found** where nothing is wrong with the settings and the groups fit. -/
theorem violations_eq_nil_iff : violations purpose c = [] ↔
    settingsViolations purpose c = [] ∧ ∃ ns, Fits c.settings.total c.groups ns := by
  constructor
  · intro h
    obtain ⟨hwalk, htotal⟩ := List.append_eq_nil_iff.1 h
    obtain ⟨ns, hclean⟩ := GroupWalk.clean_of_run hwalk
    obtain ⟨hviolations, hcounts, hresolved⟩ := walk_of_clean purpose hclean
    rw [totalViolations_eq_nil hresolved, hcounts] at htotal
    exact ⟨hviolations.symm.trans hwalk, ns, hclean, htotal⟩
  · rintro ⟨hsettings, ns, hclean, htotal⟩
    obtain ⟨hviolations, hcounts, hresolved⟩ := walk_of_clean purpose hclean
    refine List.append_eq_nil_iff.2 ⟨hviolations.trans hsettings, ?_⟩
    rw [totalViolations_eq_nil hresolved, hcounts]
    exact htotal

theorem WellFormed.fits (h : c.WellFormed ns) : Fits c.settings.total c.groups ns where
  clean := ⟨fun g hg => ⟨h.ids g hg, List.not_mem_nil⟩, h.distinct, h.sizes⟩
  total := h.total

/-- **The compositions without violations are the well-formed ones.** -/
theorem violations_eq_nil : violations .run c = [] ↔ ∃ ns, c.WellFormed ns := by
  rw [violations_eq_nil_iff, settingsViolations_eq_nil, runnerFor_run_ok]
  constructor
  · rintro ⟨⟨hplan, hcase, hbuilder, hrunner, hgroups⟩, ns, hclean, htotal⟩
    exact ⟨ns, hplan, hcase rfl, hbuilder, hrunner, hgroups, fun g hg => (hclean.ids g hg).1,
      hclean.distinct, hclean.sizes, htotal⟩
  · rintro ⟨ns, h⟩
    exact ⟨⟨h.plan, fun _ => h.case, h.builder, h.runner, h.groups⟩, ns, h.fits⟩

/-- What validation makes of a well-formed composition. -/
theorem WellFormed.validate (h : c.WellFormed ns) :
    ∃ b r, Selector.parse c.settings.builder = .ok b ∧ Selector.parse c.settings.runner = .ok r ∧
      c.validate = .ok ⟨complete c ns, b, some r, ns⟩ := by
  obtain ⟨b, hb⟩ := h.builder
  obtain ⟨r, hr⟩ := h.runner
  have hrunner : runnerFor .run c.settings = .ok (some r) := by rw [runnerFor_run, hr]; rfl
  refine ⟨b, r, hb, hr, ?_⟩
  simp only [Composition.validate, validateFor, violations_eq_nil.2 ⟨ns, h⟩, hb, hrunner,
    (walk_of_clean .run h.fits.clean).2.1]

/-- The total filled in is the sum of the numbers. -/
theorem WellFormed.total_complete (h : c.WellFormed ns) :
    (complete c ns).settings.total = totalOf ns :=
  h.fits.total_eq

/-- **Validation accepts exactly the well-formed compositions and resolves them.** What it
gives has the number of each group, none zero and zero past the last, the sum of the
numbers for its total, and the selectors read. -/
theorem validate_exact (c : Composition) :
    ((∃ v, c.validate = .ok v) ↔ ∃ ns, c.WellFormed ns) ∧
      ∀ v, c.validate = .ok v → ∃ ns, c.WellFormed ns ∧
        (∀ i, v.count i = ns.getD i 0) ∧
        (∀ i < c.groups.length, 0 < v.count i) ∧ (∀ i, c.groups.length ≤ i → v.count i = 0) ∧
        v.total = totalOf ns ∧
        (c.settings.total ≤ maxTotal → v.total ≤ maxTotal) ∧
        Selector.parse c.settings.builder = .ok v.builder ∧
        ∃ r, v.runner = some r ∧ Selector.parse c.settings.runner = .ok r := by
  have resolves : ∀ v, c.validate = .ok v → ∃ ns, c.WellFormed ns := fun v hv =>
    violations_eq_nil.1 (validateFor_eq_ok hv).1
  refine ⟨⟨fun ⟨v, hv⟩ => resolves v hv, fun ⟨ns, h⟩ => ?_⟩, fun v hv => ?_⟩
  · obtain ⟨b, r, -, -, hok⟩ := h.validate
    exact ⟨_, hok⟩
  · obtain ⟨ns, h⟩ := resolves v hv
    obtain ⟨b, r, hb, hr, hok⟩ := h.validate
    cases hok.symm.trans hv
    have hlength : c.groups.length = ns.length := h.sizes.length_eq
    have htotal := h.total_complete
    refine ⟨ns, h, fun _ => rfl, fun i hi => ?_, fun i hi => ?_, htotal, fun hle => ?_, hb, r,
      rfl, hr⟩
    · show 0 < ns.getD i 0
      rw [List.getD_eq_getElem _ _ (hlength ▸ hi)]
      exact (h.sizes.get hi (hlength ▸ hi)).pos
    · exact List.getD_eq_default _ _ (hlength ▸ hi)
    · show (complete c ns).settings.total ≤ maxTotal
      rw [htotal]
      rcases h.total with ⟨-, hsum⟩ | hsum
      · exact hsum
      · exact hsum ▸ hle

/-- One instance by its count, and one as half of a total of two. -/
def evenly : Composition where
  metadata := ⟨"", ""⟩
  settings := ⟨"plan", "case", 2, "exec:bin", "local:exec", [], none, [], none⟩
  groups :=
    [⟨"a", ⟨1, .zero⟩, .none, [], [], .none⟩,
      ⟨"b", ⟨0, ⟨0x3FE0000000000000⟩⟩, .none, [], [], .none⟩]

theorem wellFormed_evenly : evenly.WellFormed [1, 1] where
  plan := by decide
  case := by decide
  builder := ⟨_, rfl⟩
  runner := ⟨_, rfl⟩
  groups := by simp [evenly]
  ids := by decide
  distinct := by decide
  sizes :=
    .cons (.count (by decide) (by decide))
      (.cons (Sizing.resolve_eq_ok.1 (by decide +kernel)) .nil)
  total := .inr rfl

theorem validate_exact_evenly : ∃ v, evenly.validate = .ok v ∧ 0 < v.count 1 ∧ v.count 2 = 0 := by
  obtain ⟨v, hv⟩ := (validate_exact evenly).1.2 ⟨_, wellFormed_evenly⟩
  obtain ⟨ns, -, -, hpos, hpast, -⟩ := (validate_exact evenly).2 v hv
  exact ⟨v, hv, hpos 1 (by decide), hpast 2 (by decide)⟩

end Composition

end Conductor
