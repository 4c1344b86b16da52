import Conductor.Engine.Plan
import Conductor.Local.Config
import Conductor.Proofs.Composition.Validation
import Conductor.Proofs.Composition.Vocabulary
/-!
# Engine — which groups share a build

A plan puts groups into one unit only when they have one build key
(`BuildUnit.addAll_keyed`), and validation sees to it that groups can be told by the
ids that a unit lists. So whether the groups of a unit ask for the same build is a
question of what the key tells (`BuildUnit.shared_same_iff`): always the configuration
of the build, but the requests in the vocabularies that are clear, and no others.
-/

namespace Conductor

namespace BuildUnit

variable {e : Engine} {v : ValidComposition} {b : Builder}
variable {groups gs : List Group} {g g' : Group} {u : BuildUnit} {units units' : List BuildUnit}

/-- Each id in a unit is that of a group with the unit's key. -/
def Keyed (groups : List Group) (units : List BuildUnit) : Prop :=
  ∀ u ∈ units, ∀ id ∈ u.groupIds, ∃ g ∈ groups, g.id = id ∧ g.buildKey = u.key

/-- The unit of a group alone holds the group, under its key. -/
theorem ofGroup_eq_ok (h : ofGroup e v b g = .ok u) :
    u.key = g.buildKey ∧ u.groupIds = [g.id] := by
  simp only [ofGroup] at h
  split at h
  · cases h
  · cases h
    exact ⟨rfl, rfl⟩

/-- A group is added to the unit with its key, or has a unit of its own. -/
theorem add_forall {P : BuildUnit → Prop} (hof : ∀ u, ofGroup e v b g = .ok u → P u)
    (henlist : ∀ u, u.key = g.buildKey → P u → P (u.enlist g)) (hP : ∀ u ∈ units, P u)
    (h : add e v b units g = .ok units') : ∀ u ∈ units', P u := by
  simp only [add] at h
  split at h
  · cases h
    refine List.forall_mem_map.2 fun u hu => ?_
    split
    · rename_i hkey
      exact henlist u hkey (hP u hu)
    · exact hP u hu
  · cases hu : ofGroup e v b g with
    | error error => simp [hu, Except.map] at h
    | ok u =>
      rw [hu] at h
      cases h
      exact List.forall_mem_append.2 ⟨hP, List.forall_mem_singleton.2 (hof u hu)⟩

/-- **What holds of the unit of a group alone**, and is kept when groups with its key are
added, holds of all units. -/
theorem addAll_forall {P : BuildUnit → Prop} (hof : ∀ g ∈ gs, ∀ u, ofGroup e v b g = .ok u → P u)
    (henlist : ∀ g ∈ gs, ∀ u, u.key = g.buildKey → P u → P (u.enlist g)) (hP : ∀ u ∈ units, P u)
    (h : addAll e v b units gs = .ok units') : ∀ u ∈ units', P u := by
  induction gs generalizing units with
  | nil =>
    cases h
    exact hP
  | cons g gs ih =>
    rw [List.forall_mem_cons] at hof henlist
    simp only [addAll] at h
    split at h
    · rename_i hadd
      exact ih hof.2 henlist.2 (add_forall hof.1 henlist.1 hP hadd) h
    · cases h

/-- The ids in a unit are those of groups with its key. -/
theorem addAll_keyed (hk : Keyed groups units) (hgs : ∀ g ∈ gs, g ∈ groups)
    (h : addAll e v b units gs = .ok units') : Keyed groups units' := by
  refine addAll_forall (fun g hg u hu id hid => ?_) (fun g hg u hkey hu id hid => ?_) hk h
  · obtain ⟨hkey, hids⟩ := ofGroup_eq_ok hu
    rw [hids] at hid
    exact ⟨g, hgs g hg, (List.mem_singleton.1 hid).symm, hkey.symm⟩
  · rcases List.mem_append.1 hid with hid | hid
    · exact hu id hid
    · exact ⟨g, hgs g hg, (List.mem_singleton.1 hid).symm, hkey.symm⟩

/-- What is planned are units without unknown selectors, with the groups of their keys. -/
theorem planBuilds_eq_ok (h : e.planBuilds v b = .ok units) :
    unsupported? b (groupsToBuild v) = none ∧ addAll e v b [] (groupsToBuild v) = .ok units := by
  simp only [Engine.planBuilds] at h
  split at h
  · cases h
  · rename_i hnone
    cases hadd : addAll e v b [] (groupsToBuild v) with
    | error error => simp [hadd, Except.mapError] at h
    | ok units' =>
      rw [hadd] at h
      cases h
      exact ⟨hnone, rfl⟩

/-- Two groups of a validated composition are placed in one unit of its plan. -/
structure Shared (e : Engine) (v : ValidComposition) (b : Builder) (g g' : Group) : Prop where
  valid : ∃ purpose c, Composition.validateFor purpose c = .ok v
  left : g ∈ v.composition.groups
  right : g' ∈ v.composition.groups
  placed : ∃ units, e.planBuilds v b = .ok units ∧
    ∃ u ∈ units, g.id ∈ u.groupIds ∧ g'.id ∈ u.groupIds

/-- **Groups in one unit have one key.** -/
theorem Shared.buildKey_eq (h : Shared e v b g g') : g.buildKey = g'.buildKey := by
  obtain ⟨purpose, c, hvalid⟩ := h.valid
  obtain ⟨units, hplan, u, hu, hid, hid'⟩ := h.placed
  have hids := Composition.ids_nodup hvalid
  have hkeyed : Keyed v.composition.groups units :=
    addAll_keyed (by simp [Keyed]) (fun g hg => List.mem_of_mem_filter hg)
      (planBuilds_eq_ok hplan).2
  obtain ⟨g₁, hg₁, heq, hkey⟩ := hkeyed u hu _ hid
  obtain ⟨g₂, hg₂, heq', hkey'⟩ := hkeyed u hu _ hid'
  -- an id is that of one group only
  obtain rfl : g₁ = g := List.inj_on_of_nodup_map hids hg₁ h.left heq
  obtain rfl : g₂ = g' := List.inj_on_of_nodup_map hids hg₂ h.right heq'
  rw [hkey, hkey']

/-! ## Two groups that share a unit

Any two requests with one key are those of two groups of a validated composition, and a
builder that knows their selectors builds them together. -/

namespace Pair

variable {r r' : BuildOptions}

def group (id : String) (r : BuildOptions) : Group := ⟨id, ⟨1, .zero⟩, r, [], [], ⟨none, []⟩⟩

def settings (total : Nat) : Settings := ⟨"plan", "", total, "exec:bin", "", [], none, [], none⟩

def composition (total : Nat) (r r' : BuildOptions) : Composition :=
  ⟨⟨"", ""⟩, settings total, [group "a" r, group "b" r']⟩

def validated (r r' : BuildOptions) : ValidComposition :=
  ⟨composition 2 r r', Local.builderId, none, [1, 1]⟩

def builder (r r' : BuildOptions) : Builder :=
  ⟨Local.builderId, r.selectors ++ r'.selectors, fun _ => .ok ()⟩

def engine : Engine := ⟨⟨[], []⟩, .standard, ⟨""⟩⟩

theorem parse_eq : Selector.parse (composition 0 r r').settings.builder = .ok Local.builderId := by
  change Selector.parse "exec:bin" = .ok Local.builderId
  rfl

theorem runnerFor_eq : Composition.runnerFor .build (composition 0 r r').settings = .ok none := by
  simp [Composition.runnerFor, composition, settings]

/-- The walk looks at the ids and the sizes, not at the requests. -/
theorem walk_eq :
    Composition.walk .build (composition 0 r r') = ⟨["b", "a"], [], [1, 1], true⟩ := by
  have hsize : Sizing.resolve 0 ⟨1, .zero⟩ = .ok 1 := rfl
  have ha : ¬ Text.AllBlank "a" := by decide
  have hb : ¬ Text.AllBlank "b" := by decide
  have hsettings : Composition.settingsViolations .build (composition 0 r r') = [] := by
    have hplan : ¬ Text.AllBlank "plan" := by decide
    simp only [Composition.settingsViolations, parse_eq, runnerFor_eq]
    simp [composition, settings, Composition.selectorViolation, hplan]
  rw [Composition.walk, hsettings]
  simp [composition, settings, group, GroupWalk.run, GroupWalk.step, Group.idViolation?, hsize,
    ha, hb]

theorem validateFor_eq :
    Composition.validateFor .build (composition 0 r r') = .ok (validated r r') := by
  have hnil : Composition.violations .build (composition 0 r r') = [] := by
    rw [Composition.violations, walk_eq]
    rfl
  rw [Composition.validateFor, hnil, walk_eq, parse_eq, runnerFor_eq]
  rfl

/-- The builder knows every selector. -/
theorem unsupported?_eq :
    unsupported? (builder r r') [group "a" r, group "b" r'] = none := by
  have hknown : [group "a" r, group "b" r'].filter
      (fun g => !(unknownSelectors (builder r r') g).isEmpty) = [] := by
    simp only [unknownSelectors, builder, group, List.filter_eq_nil_iff, List.forall_mem_cons]
    simp +contextual
  rw [unsupported?, hknown]

/-- The second group is added to the unit of the first. -/
theorem shared (h : r.key = r'.key) :
    Shared engine (validated r r') (builder r r') (group "a" r) (group "b" r') where
  valid := ⟨.build, _, validateFor_eq⟩
  left := by simp [validated, composition]
  right := by simp [validated, composition]
  placed := by
    have hgroups : groupsToBuild (validated r r') = [group "a" r, group "b" r'] := rfl
    have hkey : (group "a" r).buildKey = (group "b" r').buildKey := by
      simp [Group.buildKey, group, h]
    obtain ⟨u, hu⟩ : ∃ u, ofGroup engine (validated r r') (builder r r') (group "a" r) = .ok u :=
      ⟨_, rfl⟩
    have hfirst : add engine (validated r r') (builder r r') [] (group "a" r) = .ok [u] := by
      simp [add, hu, Except.map]
    have hsecond : add engine (validated r r') (builder r r') [u] (group "b" r') =
        .ok [u.enlist (group "b" r')] := by
      simp [add, (ofGroup_eq_ok hu).1, hkey]
    refine ⟨[u.enlist (group "b" r')], ?_, _, List.mem_singleton_self _, ?_, ?_⟩
    · simp only [Engine.planBuilds, hgroups, unsupported?_eq, addAll, hfirst, hsecond,
        Except.mapError]
    · simp [enlist, (ofGroup_eq_ok hu).2]
    · simp [enlist]

/-- None of the two groups has a configuration. -/
theorem finite :
    ∀ g ∈ (validated r r').composition.groups, (Json.object g.buildConfig).IsFinite := by
  simp [validated, composition, group, Json.IsFinite, Json.MembersFinite]

end Pair

/-! ## What groups that share a unit have in common -/

/-- **Groups that share a unit always have one configuration, and ask for the same build
exactly when their requests are written in a clear vocabulary**: in every vocabulary that
is not clear, two groups of some composition share a unit and do not ask for the same
build. -/
theorem shared_same_iff (V : Vocabulary) :
    (∀ (e : Engine) (v : ValidComposition) (b : Builder) (g g' : Group), Shared e v b g g' →
      (∀ h ∈ v.composition.groups, (Json.object h.buildConfig).IsFinite) →
        configOf e v b g = configOf e v b g') ∧
    ((∀ (e : Engine) (v : ValidComposition) (b : Builder) (g g' : Group), Shared e v b g g' →
      (∀ h ∈ v.composition.groups, (Json.object h.buildConfig).IsFinite ∧ V.Allows h.build) →
        g.build.Agrees g'.build) ↔ V.Clear) := by
  refine ⟨fun e v b g g' h hfinite => ?_, fun hagrees => ?_, ?_⟩
  · have hkey := (Group.buildKey_eq_iff (hfinite g h.left) (hfinite g' h.right)).1 h.buildKey_eq
    rw [configOf, configOf, hkey.2]
  · -- requests with one key are those of two groups that share a unit
    refine Vocabulary.clear_of_agrees fun r r' hr hr' hkey => ?_
    refine hagrees _ _ _ _ _ (Pair.shared hkey) fun g hg => ⟨Pair.finite g hg, ?_⟩
    rcases List.mem_pair.1 hg with rfl | rfl
    · exact hr
    · exact hr'
  · intro hV e v b g g' h hgroups
    have hkey := (Group.buildKey_eq_iff (hgroups g h.left).1 (hgroups g' h.right).1).1 h.buildKey_eq
    exact hV.agrees (hgroups g h.left).2 (hgroups g' h.right).2 hkey.1

/-- One group asks for a version of a module with a colon in its name, another for a
version with a colon of a module without: they share a unit. -/
theorem not_shared_same :
    ¬ ∀ (e : Engine) (v : ValidComposition) (b : Builder) (g g' : Group), Shared e v b g g' →
      (∀ h ∈ v.composition.groups, (Json.object h.buildConfig).IsFinite) →
        g.build.Agrees g'.build ∧ configOf e v b g = configOf e v b g' := by
  intro h
  have hkey : (⟨[], [⟨"x:y", "z"⟩]⟩ : BuildOptions).key =
      (⟨[], [⟨"x", "y:z"⟩]⟩ : BuildOptions).key := by
    decide
  have hagrees := (h _ _ _ _ _ (Pair.shared hkey) Pair.finite).1
  exact absurd hagrees (by decide)

end BuildUnit

end Conductor
