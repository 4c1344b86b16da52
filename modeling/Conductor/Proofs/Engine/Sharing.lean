import Conductor.Proofs.Composition.Arrangement
import Conductor.Proofs.Engine.Partition
/-!
# Engine — groups that are rearranged

Groups that ask for the same build in another arrangement have one key, so a plan of a
validated composition has one unit for them, and no other unit lists either
(`BuildUnit.rearranged_together`). What the plan needs for this is that no key comes
again among its units (`BuildUnit.Exact.filter_key`), and that no id comes again among the
groups.
-/

namespace Conductor

namespace BuildUnit

variable {e : Engine} {v : ValidComposition} {b : Builder} {gs : List Group} {g g' : Group}
  {units : List BuildUnit}

/-- One unit lists the groups, and no other lists either of them. -/
def Together (units : List BuildUnit) (g g' : Group) : Prop :=
  ∃ u : BuildUnit, g.id ∈ u.groupIds ∧ g'.id ∈ u.groupIds ∧
    units.filter (fun u => g.id ∈ u.groupIds ∨ g'.id ∈ u.groupIds) = [u]

theorem nodup_keysOf : (keysOf gs).Nodup := by
  induction gs using List.reverseRecOn with
  | nil => exact List.nodup_nil
  | append_singleton gs g ih =>
    by_cases hmem : g.buildKey ∈ keysOf gs
    · rw [keysOf_append_of_mem hmem]
      exact ih
    · rw [keysOf_append_of_not_mem hmem, ← List.concat_eq_append]
      exact ih.concat hmem

/-- The key of a group is that of one unit. -/
theorem Exact.filter_key (h : Exact gs units) (hg : g ∈ gs) :
    ∃ u ∈ units, u.key = g.buildKey ∧ units.filter (·.key = g.buildKey) = [u] := by
  have hkeys : (units.map BuildUnit.key).Nodup := h.keys ▸ nodup_keysOf
  have hmem : g.buildKey ∈ units.map BuildUnit.key := h.keys ▸ mem_keysOf.2 ⟨g, hg, rfl⟩
  obtain ⟨u, hu, hkey⟩ := List.mem_map.1 hmem
  have hnodup : (units.filter (·.key = g.buildKey)).Nodup := (hkeys.of_map _).filter _
  have honly : ∀ u', u' ∈ units.filter (·.key = g.buildKey) ↔ u' ∈ [u] := by
    intro u'
    rw [List.mem_filter, List.mem_singleton, decide_eq_true_iff]
    constructor
    · rintro ⟨hu', hkey'⟩
      exact List.inj_on_of_nodup_map hkeys hu' hu (hkey'.trans hkey.symm)
    · rintro rfl
      exact ⟨hu, hkey⟩
  have hperm := (List.perm_ext_iff_of_nodup hnodup (List.nodup_singleton u)).2 honly
  exact ⟨u, hu, hkey, List.perm_singleton.1 hperm⟩

/-- A unit lists a group exactly if it has its key. -/
theorem Exact.mem_groupIds_iff (h : Exact gs units) (distinct : (gs.map Group.id).Nodup)
    (hg : g ∈ gs) {u : BuildUnit} (hu : u ∈ units) : g.id ∈ u.groupIds ↔ u.key = g.buildKey := by
  rw [h.ids u hu, mem_idsWith]
  constructor
  · rintro ⟨x, hx, hkey, hid⟩
    obtain rfl : x = g := List.inj_on_of_nodup_map distinct hx hg hid
    exact hkey.symm
  · intro hkey
    exact ⟨g, hg, hkey.symm, rfl⟩

/-- **Groups with one key are together** in the units that groups come to. -/
theorem Exact.together (h : Exact gs units) (distinct : (gs.map Group.id).Nodup) (hg : g ∈ gs)
    (hg' : g' ∈ gs) (hkey : g.buildKey = g'.buildKey) : Together units g g' := by
  obtain ⟨u, hu, hukey, honly⟩ := h.filter_key hg
  refine ⟨u, ?_, ?_, ?_⟩
  · exact (h.mem_groupIds_iff distinct hg hu).2 hukey
  · exact (h.mem_groupIds_iff distinct hg' hu).2 (hukey.trans hkey)
  · rw [← honly]
    refine List.filter_congr fun u' hu' => ?_
    rw [decide_eq_decide, h.mem_groupIds_iff distinct hg hu', h.mem_groupIds_iff distinct hg' hu',
      hkey, or_self]

/-- **A build key does not tell the arrangement of a build.** Builds that differ in their
arrangement only have one key and ask for the same versions, and the defaults keep them so.
In the plan of a validated composition, groups that differ in this way and have no artifact
are in one unit. -/
theorem rearranged_together :
    (∀ r r' : BuildOptions, r.Rearranged r' → r.key = r'.key ∧ r.versions = r'.versions) ∧
    (∀ (s : Settings) (g g' : Group), g.Rearranged g' →
      (Composition.withDefaults s g).Rearranged (Composition.withDefaults s g')) ∧
    (∀ (e : Engine) (v : ValidComposition) (b : Builder) (units : List BuildUnit),
      (∃ purpose c, Composition.validateFor purpose c = .ok v) → e.planBuilds v b = .ok units →
      ∀ g ∈ v.composition.groups, ∀ g' ∈ v.composition.groups,
        g.run.artifact = none → g'.run.artifact = none → g.Rearranged g' →
          Together units g g') := by
  refine ⟨fun r r' h => ?_, fun s g g' h => h.withDefaults s, ?_⟩
  · have halike := BuildOptions.rearranged_iff.1 h
    exact ⟨halike.key_eq, halike.versions_eq⟩
  · rintro e v b units ⟨purpose, c, hvalid⟩ hplan g hg g' hg' hartifact hartifact' h
    have hbuilt : g ∈ groupsToBuild v := List.mem_filter.2 ⟨hg, by simp [hartifact]⟩
    have hbuilt' : g' ∈ groupsToBuild v := List.mem_filter.2 ⟨hg', by simp [hartifact']⟩
    exact (exact_of_plan hplan).together (ids_groupsToBuild_nodup hvalid) hbuilt hbuilt'
      h.buildKey_eq

/-- One group names a selector twice and a module in front of the two entries of another, the
second names the selectors the other way around and the module between the two entries. -/
theorem rearranged_together_pair :
    let r : BuildOptions := ⟨["foo", "bar", "foo"], [⟨"y", "2"⟩, ⟨"x", "1"⟩, ⟨"x", "3"⟩]⟩
    let r' : BuildOptions := ⟨["bar", "foo"], [⟨"x", "1"⟩, ⟨"y", "2"⟩, ⟨"x", "3"⟩]⟩
    (∃ purpose c, Composition.validateFor purpose c = .ok (Pair.validated r r')) ∧
      (Pair.group "a" r).Rearranged (Pair.group "b" r') ∧
      ∃ units, Pair.engine.planBuilds (Pair.validated r r') (Pair.builder r r') = .ok units ∧
        Together units (Pair.group "a" r) (Pair.group "b" r') := by
  intro r r'
  have hvalid : ∃ purpose c, Composition.validateFor purpose c = .ok (Pair.validated r r') :=
    ⟨.build, _, Pair.validateFor_eq⟩
  have hbuild : r.Rearranged r' :=
    BuildOptions.rearranged_iff.2 (BuildOptions.alike_iff_sorted.2 (by decide))
  obtain ⟨hkeys, hdefaults, htogether⟩ := rearranged_together
  obtain ⟨units, hplan, -⟩ := (Pair.shared (hkeys r r' hbuild).1).placed
  have hgroups : (Pair.group "a" r).Rearranged (Pair.group "b" r') := ⟨hbuild, rfl⟩
  refine ⟨hvalid, hgroups, units, hplan, ?_⟩
  exact htogether _ _ _ _ hvalid hplan _ (by simp [Pair.validated, Pair.composition]) _
    (by simp [Pair.validated, Pair.composition]) rfl rfl hgroups

end BuildUnit

end Conductor
