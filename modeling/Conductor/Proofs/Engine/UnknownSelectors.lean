import Conductor.Proofs.Composition.Defaults
import Conductor.Proofs.Engine.Plan
import Conductor.Proofs.Text.Utf8
/-!
# Engine — selectors that a builder does not know

A plan looks at every group that is to be built before it gives up, and its error names all
that is wrong (`BuildUnit.unsupported_exact`). Whether a group is to be built, and which
selectors it asks for, is a matter of the composition that was validated: what a group
leaves unset is filled in from the defaults before. So the error is described by the groups
of that composition, and what they are given (`Composition.Requests`).
-/

namespace Conductor

namespace Composition

/-- A group has no artifact, and asks for a selector: its own or, if it names none, one of the
defaults. -/
def Requests (c : Composition) (g : Group) (s : String) : Prop :=
  c.givenArtifact g = none ∧ s ∈ c.givenSelectors g

/-- A group has no artifact, and asks for a selector that the builder does not know. -/
def Offends (c : Composition) (b : Builder) (g : Group) : Prop :=
  c.givenArtifact g = none ∧ ∃ s ∈ c.givenSelectors g, s ∉ b.selectors

instance (c : Composition) (b : Builder) (g : Group) : Decidable (c.Offends b g) :=
  inferInstanceAs (Decidable (_ ∧ _))

end Composition

/-- **An error names what is wrong** between a composition and a builder. -/
structure UnsupportedSelectors.Names (c : Composition) (b : Builder) (ids : List String)
    (x : UnsupportedSelectors) : Prop where
  builder : x.builder = b.id
  /-- The selectors are those that the builder does not know and a group asks for. -/
  selectors : ∀ s, s ∈ x.selectors ↔ s ∉ b.selectors ∧ ∃ g ∈ c.groups, c.Requests g s
  /-- Their octets increase. -/
  increasing : (x.selectors.map Text.Utf8.ofString).Pairwise (· < ·)
  /-- The groups are those that ask for one of them, in their order. -/
  groups : ids = (c.groups.filter fun g => c.Offends b g).map Group.id
  /-- A group that has an artifact is not among them. -/
  prebuilt : ∀ g ∈ c.groups, c.givenArtifact g ≠ none → g.id ∉ ids

namespace BuildUnit

variable {purpose : Purpose} {c : Composition} {e : Engine} {v : ValidComposition} {b : Builder}
  {gs : List Group} {g : Group} {s : String} {ids : List String} {x : UnsupportedSelectors}

/-! ## What a plan looks at -/

theorem mem_unknownSelectors :
    s ∈ unknownSelectors b g ↔ s ∈ g.build.selectors ∧ s ∉ b.selectors := by
  simp [unknownSelectors]

/-- The error is about the groups with an unknown selector, if there are any. -/
theorem unsupported?_eq_some_iff {error : OrchestrationError} :
    unsupported? b gs = some error ↔
      (∃ g ∈ gs, ∃ s ∈ g.build.selectors, s ∉ b.selectors) ∧
        error = .unsupportedSelector
          ((gs.filter fun g => !(unknownSelectors b g).isEmpty).map Group.id)
          ⟨b.id, sortDistinct (gs.flatMap (unknownSelectors b))⟩ := by
  have hoffending : (∃ g ∈ gs, ∃ s ∈ g.build.selectors, s ∉ b.selectors) ↔
      gs.filter (fun g => !(unknownSelectors b g).isEmpty) ≠ [] := by
    rw [Ne, List.filter_eq_nil_iff]
    push Not
    refine exists_congr fun g => and_congr_right fun _ => ?_
    rw [Bool.not_eq_true', List.isEmpty_eq_false_iff_exists_mem]
    exact exists_congr fun s => mem_unknownSelectors.symm
  rw [hoffending]
  unfold unsupported?
  cases gs.filter fun g => !(unknownSelectors b g).isEmpty with
  | nil => simp
  | cons g gs => simp [eq_comm]

/-- A plan has this error only before it adds any groups. -/
theorem planBuilds_eq_unsupported_iff :
    e.planBuilds v b = .error (.unsupportedSelector ids x) ↔
      unsupported? b (groupsToBuild v) = some (.unsupportedSelector ids x) := by
  unfold Engine.planBuilds
  dsimp only
  cases unsupported? b (groupsToBuild v) with
  | some error => simp
  | none =>
    cases addAll e v b [] (groupsToBuild v) with
    | ok units => simp [Except.mapError]
    | error error => simp [Except.mapError]

/-- The groups to build are those that are given no artifact, with the defaults. -/
theorem groupsToBuild_of_validateFor (h : Composition.validateFor purpose c = .ok v) :
    groupsToBuild v = (c.groups.filter fun g => c.givenArtifact g = none).map
      (Composition.withDefaults c.settings) := by
  rw [groupsToBuild, Composition.groups_of_validateFor h, List.filter_map]
  congr 1
  refine List.filter_congr fun g _ => ?_
  have hartifact : (Composition.withDefaults c.settings g).run.artifact = c.givenArtifact g :=
    Composition.artifact_withDefaults c.settings g
  rw [Function.comp_apply, hartifact, Bool.eq_iff_iff, decide_eq_true_iff,
    Option.isNone_iff_eq_none]

theorem mem_unknownSelectors_withDefaults :
    s ∈ unknownSelectors b (Composition.withDefaults c.settings g) ↔
      s ∈ c.givenSelectors g ∧ s ∉ b.selectors := by
  rw [mem_unknownSelectors, Composition.selectors_withDefaults]
  rfl

/-! ## What the error names -/

/-- Some group offends exactly if a group to build has an unknown selector. -/
theorem exists_offends_iff (h : Composition.validateFor purpose c = .ok v) :
    (∃ g ∈ groupsToBuild v, ∃ s ∈ g.build.selectors, s ∉ b.selectors) ↔
      ∃ g ∈ c.groups, c.Offends b g := by
  rw [groupsToBuild_of_validateFor h]
  simp only [List.mem_map, List.mem_filter, decide_eq_true_iff]
  constructor
  · rintro ⟨-, ⟨g, ⟨hg, hartifact⟩, rfl⟩, s, hs, hunknown⟩
    have hmem := mem_unknownSelectors_withDefaults.1 (mem_unknownSelectors.2 ⟨hs, hunknown⟩)
    exact ⟨g, hg, hartifact, s, hmem⟩
  · rintro ⟨g, hg, hartifact, s, hs⟩
    have hmem := mem_unknownSelectors.1 (mem_unknownSelectors_withDefaults.2 hs)
    exact ⟨_, ⟨g, ⟨hg, hartifact⟩, rfl⟩, s, hmem⟩

/-- The groups with an unknown selector are those that offend. -/
theorem ids_offending (h : Composition.validateFor purpose c = .ok v) :
    ((groupsToBuild v).filter fun g => !(unknownSelectors b g).isEmpty).map Group.id =
      (c.groups.filter fun g => c.Offends b g).map Group.id := by
  rw [groupsToBuild_of_validateFor h, List.filter_map, List.map_map, List.filter_filter]
  -- the defaults keep the ids
  refine congrArg (List.map Group.id) (List.filter_congr fun g _ => ?_)
  rw [Bool.eq_iff_iff, Bool.and_eq_true, decide_eq_true_iff, decide_eq_true_iff,
    Function.comp_apply, Bool.not_eq_true', List.isEmpty_eq_false_iff_exists_mem,
    and_comm (b := c.givenArtifact g = none)]
  exact and_congr_right fun _ => exists_congr fun s => mem_unknownSelectors_withDefaults

/-- The unknown selectors of the groups to build are those that a group asks for. -/
theorem mem_unknown_iff (h : Composition.validateFor purpose c = .ok v) :
    s ∈ (groupsToBuild v).flatMap (unknownSelectors b) ↔
      s ∉ b.selectors ∧ ∃ g ∈ c.groups, c.Requests g s := by
  rw [groupsToBuild_of_validateFor h]
  simp only [List.flatMap_map, List.mem_flatMap, List.mem_filter, decide_eq_true_iff,
    mem_unknownSelectors_withDefaults, Composition.Requests]
  constructor
  · rintro ⟨g, ⟨hg, hartifact⟩, hs, hunknown⟩
    exact ⟨hunknown, g, hg, hartifact, hs⟩
  · rintro ⟨hunknown, g, hg, hartifact, hs⟩
    exact ⟨g, ⟨hg, hartifact⟩, hs, hunknown⟩

/-- **All unknown selectors are found and named.** The plan of a validated composition fails
for them exactly if some group without an artifact asks for one, and then its error names
them, in their order, with the groups that ask for them, and nothing else. -/
theorem unsupported_exact (h : Composition.validateFor purpose c = .ok v) :
    ((∃ ids x, e.planBuilds v b = .error (.unsupportedSelector ids x)) ↔
      ∃ g ∈ c.groups, ∃ s, c.Requests g s ∧ s ∉ b.selectors) ∧
    ∀ ids x, e.planBuilds v b = .error (.unsupportedSelector ids x) →
      UnsupportedSelectors.Names c b ids x := by
  simp only [planBuilds_eq_unsupported_iff, unsupported?_eq_some_iff, exists_offends_iff h,
    ids_offending h]
  refine ⟨?_, fun ids x herror => ?_⟩
  · constructor
    · rintro ⟨-, -, ⟨g, hg, hartifact, s, hs, hunknown⟩, -⟩
      exact ⟨g, hg, s, ⟨hartifact, hs⟩, hunknown⟩
    · rintro ⟨g, hg, s, ⟨hartifact, hs⟩, hunknown⟩
      exact ⟨_, _, ⟨g, hg, hartifact, s, hs, hunknown⟩, rfl⟩
  · obtain ⟨-, heq⟩ := herror
    obtain ⟨rfl, rfl⟩ := OrchestrationError.unsupportedSelector.inj heq
    refine ⟨rfl, fun s => ?_, ?_, rfl, fun g hg hartifact hid => ?_⟩
    · rw [mem_sortDistinct, mem_unknown_iff h]
    · refine List.pairwise_map.2 ((sorted_sortDistinct _).imp fun hlt => ?_)
      exact Text.Utf8.ofString_lt_iff.2 hlt
    · obtain ⟨g', hg', hid'⟩ := List.mem_map.1 hid
      obtain ⟨hmem, hoffends⟩ := List.mem_filter.1 hg'
      -- an id is that of one group only
      obtain rfl : g' = g := List.inj_on_of_nodup_map (Composition.given_ids_nodup h) hmem hg hid'
      exact hartifact (of_decide_eq_true hoffends).1

/-- A group with selectors of its own, one that is left to the defaults, and one that asks for
more but has an artifact. -/
def mixed : Composition where
  metadata := ⟨"", ""⟩
  settings := ⟨"plan", "case", 0, "exec:bin", "local:exec", [], some ⟨["bar"], []⟩, [], none⟩
  groups :=
    [⟨"own", ⟨1, .zero⟩, ⟨["foo", "zip", "bar", "foo"], []⟩, [], [], .none⟩,
      ⟨"bare", ⟨1, .zero⟩, .none, [], [], .none⟩,
      ⟨"prebuilt", ⟨1, .zero⟩, ⟨["odd"], []⟩, [], [], ⟨some "/bin/true", []⟩⟩]

/-- A builder that knows one selector. -/
def zipper : Builder := ⟨Local.builderId, ["zip"], fun _ => .ok ()⟩

/-- A selector that is asked for three times is named once. -/
theorem unsupported_exact_mixed : ∃ v, Composition.validateFor .run mixed = .ok v ∧
    Pair.engine.planBuilds v zipper =
      .error (.unsupportedSelector ["own", "bare"] ⟨Local.builderId, ["bar", "foo"]⟩) ∧
    UnsupportedSelectors.Names mixed zipper ["own", "bare"]
      ⟨Local.builderId, ["bar", "foo"]⟩ := by
  obtain ⟨v, hvalid, herror⟩ : ∃ v, Composition.validateFor .run mixed = .ok v ∧
      Pair.engine.planBuilds v zipper =
        .error (.unsupportedSelector ["own", "bare"] ⟨Local.builderId, ["bar", "foo"]⟩) :=
    ⟨_, rfl, rfl⟩
  exact ⟨v, hvalid, herror, (unsupported_exact hvalid).2 _ _ herror⟩

end BuildUnit

end Conductor
