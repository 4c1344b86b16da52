import Conductor.Proofs.Composition.Validation
import Conductor.Proofs.Table
/-!
# Compositions — what the defaults fill in

A validated composition has the groups of the one it was made from, each with what it leaves
unset filled in from the settings, and nothing else changed (`Composition.defaults_fill`).

Dependencies are the part to look at. They are lists in which a module may come again, on either
side, and they are read as tables in which the last entry of a module wins. What makes the
longer list a table on top of a table is that of each module it has the entries of one side only
(`BuildOptions.filter_over`). For the same reason the defaults find nothing to fill in where they
were applied before (`Composition.withDefaults_withDefaults`).
-/

namespace Conductor

/-! ## Builds -/

namespace BuildOptions

variable {b d : BuildOptions} {package : String}

/-- The requests name a module. -/
def Names (b : BuildOptions) (package : String) : Prop :=
  ∃ e ∈ b.dependencies, e.package = package

instance : Decidable (b.Names package) :=
  inferInstanceAs (Decidable (∃ e ∈ b.dependencies, e.package = package))

theorem any_package :
    (b.dependencies.any fun e => e.package = package) = decide (b.Names package) := by
  rw [Bool.eq_iff_iff, List.any_eq_true, decide_eq_true_iff]
  simp [Names]

/-- The version that the last entry for a module asks for. -/
def version? (b : BuildOptions) (package : String) : Option String :=
  ((b.dependencies.filter (·.package = package)).getLast?).map Dependency.version

theorem version?_eq_none : b.version? package = Option.none ↔ ¬ b.Names package := by
  simp [version?, Names]

/-- **A version is looked up** in the last entry for its module. -/
theorem get?_versions : b.versions.get? package = b.version? package := by
  have hfilter : (b.dependencies.map fun d => (d.package, d.version)).filter (·.1 = package) =
      (b.dependencies.filter (·.package = package)).map fun d => (d.package, d.version) :=
    List.filter_map
  rw [versions, Table.get?_ofList, hfilter, List.getLast?_map, version?, Option.map_map]
  rfl

theorem dependencies_over : (b.over d).dependencies =
    b.dependencies ++ d.dependencies.filter fun x => ¬ b.Names x.package := by
  simp only [BuildOptions.over, any_package, decide_not]

/-- **Of each module there are the entries of one side**: those of the requests, or those of
the defaults if the requests have none. -/
theorem filter_over : (b.over d).dependencies.filter (·.package = package) =
    if b.Names package then b.dependencies.filter (·.package = package)
    else d.dependencies.filter (·.package = package) := by
  rw [dependencies_over, List.filter_append, List.filter_filter]
  split
  · rename_i hnamed
    have hnone : d.dependencies.filter
        (fun x => decide (x.package = package) && decide (¬ b.Names x.package)) = [] := by
      refine List.filter_eq_nil_iff.2 fun x _ hx => ?_
      obtain ⟨rfl, hunnamed⟩ : x.package = package ∧ ¬ b.Names x.package := by simpa using hx
      exact hunnamed hnamed
    rw [hnone, List.append_nil]
  · rename_i hnamed
    have hnone : b.dependencies.filter (·.package = package) = [] :=
      List.filter_eq_nil_iff.2 fun e he hp => hnamed ⟨e, he, by simpa using hp⟩
    rw [hnone, List.nil_append]
    refine List.filter_congr fun x _ => ?_
    by_cases hx : x.package = package
    · simp [hx, hnamed]
    · simp [hx]

/-- A version is that of the requests, or that of the defaults if they do not name the module. -/
theorem version?_over : (b.over d).version? package =
    (b.version? package).or (d.version? package) := by
  have hover := @filter_over b d package
  by_cases hnamed : b.Names package
  · rw [if_pos hnamed] at hover
    have hversion : (b.over d).version? package = b.version? package := by
      rw [version?, hover, version?]
    obtain ⟨v, hv⟩ := Option.ne_none_iff_exists'.1 (mt version?_eq_none.1 (not_not.2 hnamed))
    rw [hversion, hv, Option.some_or]
  · rw [if_neg hnamed] at hover
    rw [version?_eq_none.2 hnamed, Option.none_or, version?, hover, version?]

theorem names_over : (b.over d).Names package ↔ b.Names package ∨ d.Names package := by
  have hversion := @version?_over b d package
  have hnone : (b.over d).version? package = Option.none ↔
      b.version? package = Option.none ∧ d.version? package = Option.none := by
    rw [hversion, Option.or_eq_none_iff]
  rw [version?_eq_none, version?_eq_none, version?_eq_none] at hnone
  tauto

/-- Over the defaults again, the requests stay as they are. -/
theorem over_over : (b.over d).over d = b.over d := by
  have hselectors : ((b.over d).over d).selectors = (b.over d).selectors := by
    by_cases hempty : b.selectors.isEmpty <;> simp [BuildOptions.over, hempty]
  have hdependencies : ((b.over d).over d).dependencies = (b.over d).dependencies := by
    have hnone : d.dependencies.filter (fun x => ¬ (b.over d).Names x.package) = [] := by
      refine List.filter_eq_nil_iff.2 fun x hx => ?_
      have hnamed : (b.over d).Names x.package := names_over.2 (.inr ⟨x, hx, rfl⟩)
      simp [hnamed]
    rw [dependencies_over, hnone, List.append_nil]
  exact congr_arg₂ BuildOptions.mk hselectors hdependencies

end BuildOptions

/-! ## Runs -/

/-- Over the defaults again, the run requests stay as they are. -/
theorem RunOptions.over_over {r d : RunOptions} (h : d.parameters.Sorted) :
    (r.over d).over d = r.over d := by
  have hartifact : ((r.over d).over d).artifact = (r.over d).artifact := by
    simp only [RunOptions.over, Option.or_assoc, Option.or_self]
  exact congr_arg₂ RunOptions.mk hartifact (Table.overlay_overlay h)

/-! ## Groups -/

/-- A group is another with exactly what that leaves unset filled in from settings: the selectors
if it has none, the modules that it does not name, the artifact if it has none, and the
parameters that it does not set. -/
structure Group.Filled (s : Settings) (g g' : Group) : Prop where
  id : g'.id = g.id
  sizing : g'.sizing = g.sizing
  buildConfig : g'.buildConfig = g.buildConfig
  runConfig : g'.runConfig = g.runConfig
  selectors : g'.build.selectors =
    if g.build.selectors = [] then (s.build.map BuildOptions.selectors).getD []
    else g.build.selectors
  versions : ∀ package, g'.build.versions.get? package =
    (g.build.version? package).or (s.build.bind fun b => b.versions.get? package)
  artifact : g'.run.artifact = g.run.artifact.or (s.run.bind RunOptions.artifact)
  parameters : ∀ key, g'.run.parameters.get? key =
    (g.run.parameters.get? key).or (s.run.bind fun r => r.parameters.get? key)

namespace Composition

/-- The artifact that a group is given: its own, or the default of the composition. -/
def givenArtifact (c : Composition) (g : Group) : Option String :=
  g.run.artifact.or (c.settings.run.bind RunOptions.artifact)

/-- The selectors that a group is given: its own, or the defaults if it has none. -/
def givenSelectors (c : Composition) (g : Group) : List String :=
  if g.build.selectors = [] then (c.settings.build.map BuildOptions.selectors).getD []
  else g.build.selectors

variable {purpose : Purpose} {c : Composition} {v : ValidComposition} {s : Settings} {g : Group}
  {key : String}

/-- The artifact of a group with the defaults. -/
theorem artifact_withDefaults (s : Settings) (g : Group) :
    (withDefaults s g).run.artifact = g.run.artifact.or (s.run.bind RunOptions.artifact) := by
  unfold withDefaults
  cases s.run with
  | none => simp
  | some r => rfl

/-- The parameters of a group with the defaults. -/
theorem parameters_withDefaults (s : Settings) (h : g.run.parameters.Sorted) :
    (withDefaults s g).run.parameters.get? key =
      (g.run.parameters.get? key).or (s.run.bind fun r => r.parameters.get? key) := by
  unfold withDefaults
  cases s.run with
  | none => simp
  | some r => exact h.get?_overlay

/-- The selectors of a group with the defaults. -/
theorem selectors_withDefaults (s : Settings) (g : Group) :
    (withDefaults s g).build.selectors =
      if g.build.selectors = [] then (s.build.map BuildOptions.selectors).getD []
      else g.build.selectors := by
  unfold withDefaults
  cases s.build with
  | none => by_cases h : g.build.selectors = [] <;> simp [h]
  | some b => simp [BuildOptions.over, List.isEmpty_iff]

/-- The versions that a group with the defaults asks for. -/
theorem versions_withDefaults (s : Settings) (g : Group) (package : String) :
    (withDefaults s g).build.versions.get? package =
      (g.build.version? package).or (s.build.bind fun b => b.versions.get? package) := by
  simp only [BuildOptions.get?_versions]
  unfold withDefaults
  cases s.build with
  | none => simp
  | some b => exact BuildOptions.version?_over

/-- **The defaults fill in** what a group leaves unset. -/
theorem filled_withDefaults (s : Settings) (h : g.run.parameters.Sorted) :
    g.Filled s (withDefaults s g) where
  id := rfl
  sizing := rfl
  buildConfig := rfl
  runConfig := rfl
  selectors := selectors_withDefaults s g
  versions := versions_withDefaults s g
  artifact := artifact_withDefaults s g
  parameters := fun _ => parameters_withDefaults s h

/-- **Defaults that were applied are not applied again.** -/
theorem withDefaults_withDefaults (h : ∀ r ∈ s.run, r.parameters.Sorted) :
    withDefaults s (withDefaults s g) = withDefaults s g := by
  have hbuild : (withDefaults s (withDefaults s g)).build = (withDefaults s g).build := by
    unfold withDefaults
    cases s.build with
    | none => rfl
    | some b => exact BuildOptions.over_over
  have hrun : (withDefaults s (withDefaults s g)).run = (withDefaults s g).run := by
    unfold withDefaults
    cases hs : s.run with
    | none => rfl
    | some r => exact RunOptions.over_over (h r hs)
  rw [withDefaults, Group.mk.injEq]
  exact ⟨rfl, rfl, hbuild, rfl, rfl, hrun⟩

theorem applyDefaults_applyDefaults (h : ∀ r ∈ c.settings.run, r.parameters.Sorted) :
    applyDefaults (applyDefaults c) = applyDefaults c := by
  have hgroups : (c.groups.map (withDefaults c.settings)).map (withDefaults c.settings) =
      c.groups.map (withDefaults c.settings) := by
    rw [List.map_map]
    exact List.map_congr_left fun g _ => withDefaults_withDefaults h
  exact congrArg (fun groups => { c with groups }) hgroups

/-- What is complete has the defaults. -/
theorem applyDefaults_complete {counts : List Nat}
    (h : ∀ r ∈ c.settings.run, r.parameters.Sorted) :
    applyDefaults (complete c counts) = complete c counts := by
  rw [complete]
  refine applyDefaults_applyDefaults ?_
  exact h

/-- **The defaults fill in exactly what the groups leave unset.** A validated composition has
the groups of the one it was made from, in their order, filled in from its settings. The
settings are unchanged but for the total, and the metadata are unchanged. -/
theorem defaults_fill (hparameters : ∀ g ∈ c.groups, g.run.parameters.Sorted)
    (h : validateFor purpose c = .ok v) :
    List.Forall₂ (Group.Filled c.settings) c.groups v.composition.groups ∧
      v.composition.settings = { c.settings with total := v.total } ∧
      v.composition.metadata = c.metadata := by
  have hcomposition := (validateFor_eq_ok h).2
  refine ⟨?_, by rw [ValidComposition.total, hcomposition]; rfl, by rw [hcomposition]; rfl⟩
  rw [groups_of_validateFor h, List.forall₂_map_right_iff, List.forall₂_same]
  intro g hg
  exact filled_withDefaults c.settings (hparameters g hg)

/-- Defaults that name a module twice, for one group that names another module twice and has a
stray percentage beside its count, and one that sets nothing but a count. -/
def layered : Composition where
  metadata := ⟨"", ""⟩
  settings := ⟨"plan", "case", 0, "exec:bin", "local:exec", [],
    some ⟨["bar"], [⟨"x", "1"⟩, ⟨"y", "5"⟩, ⟨"x", "2"⟩]⟩, [],
    some ⟨some "/bin/true", [("size", "small")]⟩⟩
  groups :=
    [⟨"own", ⟨1, ⟨0x7FF8000000000001⟩⟩, ⟨["foo"], [⟨"y", "3"⟩, ⟨"y", "4"⟩]⟩, [], [],
        ⟨none, [("size", "big")]⟩⟩,
      ⟨"bare", ⟨2, .zero⟩, .none, [], [], .none⟩]

theorem validate_layered : ∃ v, layered.validate = .ok v := ⟨_, rfl⟩

/-- The last version wins on either side, and that of the group over that of the defaults. -/
theorem defaults_fill_layered : ∃ v own bare, layered.validate = .ok v ∧
    (∀ g ∈ layered.groups, g.run.parameters.Sorted) ∧ v.composition.groups = [own, bare] ∧
    own.build.versions.get? "y" = some "4" ∧ own.build.versions.get? "x" = some "2" ∧
    own.run.parameters.get? "size" = some "big" ∧ bare.build.versions.get? "y" = some "5" ∧
    bare.run.artifact = some "/bin/true" := by
  obtain ⟨v, hv⟩ := validate_layered
  have hsorted : ∀ g ∈ layered.groups, g.run.parameters.Sorted := by
    simp [layered, Table.Sorted, RunOptions.none]
  obtain ⟨hgroups, -, -⟩ := @defaults_fill .run _ _ hsorted hv
  obtain ⟨own, rest, hown, hrest, heq⟩ := List.forall₂_cons_left_iff.1 hgroups
  obtain ⟨bare, rest, hbare, hnil, rfl⟩ := List.forall₂_cons_left_iff.1 hrest
  obtain rfl := List.forall₂_nil_left_iff.1 hnil
  exact ⟨v, own, bare, hv, hsorted, heq, hown.versions "y", hown.versions "x",
    hown.parameters "size", hbare.versions "y", hbare.artifact⟩

end Composition

end Conductor
