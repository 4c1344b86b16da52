import Conductor.Composition.Decode
import Conductor.Proofs.Composition.Defaults
import Conductor.Proofs.Composition.Picks
import Conductor.Proofs.Json.Records
/-!
# Compositions — tables in order

The laws of the defaults ask that the parameters of groups be tables with increasing keys. All
tables of a composition are so when it is decoded, whatever document it is decoded from
(`Composition.ordered_of_decode`), and they stay so when groups of it are picked and when it is
validated (`Composition.Ordered.validateFor`).

A record has its fields from what they decode, so of each record it is enough to say that its
fields keep the tables in order (`Json.Decode.holds_of_record`).
-/

namespace Conductor

/-! ## Tables in order -/

/-- The tables of the settings are in order. -/
structure Settings.Ordered (s : Settings) : Prop where
  buildConfig : s.buildConfig.Sorted
  runConfig : s.runConfig.Sorted
  parameters : ∀ r ∈ s.run, r.parameters.Sorted

/-- The tables of a group are in order. -/
structure Group.Ordered (g : Group) : Prop where
  buildConfig : g.buildConfig.Sorted
  runConfig : g.runConfig.Sorted
  parameters : g.run.parameters.Sorted

/-- The tables of a composition are in order. -/
structure Composition.Ordered (c : Composition) : Prop where
  settings : c.settings.Ordered
  groups : ∀ g ∈ c.groups, g.Ordered

/-! ## What is decoded -/

namespace Composition

open Json.Decode

variable {purpose : Purpose} {c : Composition} {s : Json.Setting} {d : Json.Document}

theorem sorted_of_runShape {r : RunOptions} (h : record runShape s d = .ok r) :
    r.parameters.Sorted := by
  refine holds_of_record (P := fun r => r.parameters.Sorted) .nil ?_ h
  simp only [runShape, List.forall_mem_cons]
  refine ⟨?artifact, ?parameters, by simp⟩
  case artifact => exact keeps_field fun _ _ _ _ _ hr => hr
  case parameters => exact keeps_field fun _ _ _ hx _ _ => sorted_of_table hx

theorem ordered_of_settingsShape {t : Settings} (h : record settingsShape s d = .ok t) :
    t.Ordered := by
  refine holds_of_record ⟨.nil, .nil, by simp [settingsShape]⟩ ?_ h
  simp only [settingsShape, List.forall_mem_cons]
  refine ⟨?plan, ?case, ?total, ?builder, ?runner, ?buildConfig, ?build, ?runConfig, ?run, by simp⟩
  case buildConfig =>
    exact keeps_field fun _ _ _ hx _ ht => ⟨sorted_of_table hx, ht.runConfig, ht.parameters⟩
  case runConfig =>
    exact keeps_field fun _ _ _ hx _ ht => ⟨ht.buildConfig, sorted_of_table hx, ht.parameters⟩
  case run =>
    exact keeps_field fun _ _ _ hx _ ht =>
      ⟨ht.buildConfig, ht.runConfig, forall_of_nullable (fun _ _ _ => sorted_of_runShape) hx⟩
  -- the other fields are no tables
  all_goals exact keeps_field fun _ _ _ _ _ ht => ⟨ht.buildConfig, ht.runConfig, ht.parameters⟩

theorem ordered_of_groupShape {g : Group} (h : record groupShape s d = .ok g) : g.Ordered := by
  refine holds_of_record ⟨.nil, .nil, .nil⟩ ?_ h
  simp only [groupShape, List.forall_mem_cons]
  refine ⟨?id, ?sizing, ?build, ?buildConfig, ?runConfig, ?run, by simp⟩
  case buildConfig =>
    exact keeps_field fun _ _ _ hx _ hg => ⟨sorted_of_table hx, hg.runConfig, hg.parameters⟩
  case runConfig =>
    exact keeps_field fun _ _ _ hx _ hg => ⟨hg.buildConfig, sorted_of_table hx, hg.parameters⟩
  case run =>
    exact keeps_field fun _ _ _ hx _ hg => ⟨hg.buildConfig, hg.runConfig, sorted_of_runShape hx⟩
  all_goals exact keeps_field fun _ _ _ _ _ hg => ⟨hg.buildConfig, hg.runConfig, hg.parameters⟩

/-- **What is decoded is in order**, from whatever document. -/
theorem ordered_of_decode (h : decode s d = .ok c) : c.Ordered := by
  have hempty : shape.empty.Ordered :=
    ⟨⟨.nil, .nil, by simp [shape, settingsShape]⟩, by simp [shape]⟩
  refine holds_of_record hempty ?_ h
  simp only [shape, List.forall_mem_cons]
  refine ⟨?metadata, ?settings, ?groups, by simp⟩
  case metadata => exact keeps_field fun _ _ _ _ _ hc => ⟨hc.settings, hc.groups⟩
  case settings => exact keeps_field fun _ _ _ hx _ hc => ⟨ordered_of_settingsShape hx, hc.groups⟩
  case groups =>
    exact keeps_field fun _ _ _ hx _ hc =>
      ⟨hc.settings, forall_of_list (fun _ _ _ => ordered_of_groupShape) hx⟩

/-- So it is when it is read from a text. -/
theorem ordered_of_ofJsonText {bs : List UInt8} (h : ofJsonText bs = .ok c) : c.Ordered := by
  unfold ofJsonText Json.decodeText Json.decodeSource at h
  obtain ⟨c', hc', h⟩ := Json.bind_eq_ok.1 h
  split at h
  · cases h
  · cases h
    exact ordered_of_decode hc'

/-! ## What is made of it -/

/-- Defaults leave a group in order. -/
theorem Ordered.withDefaults (h : c.Ordered) {g : Group} (hg : g ∈ c.groups) :
    (withDefaults c.settings g).Ordered where
  buildConfig := (h.groups g hg).buildConfig
  runConfig := (h.groups g hg).runConfig
  parameters := by
    unfold Composition.withDefaults
    cases hr : c.settings.run with
    | none => exact (h.groups g hg).parameters
    | some r => exact (h.settings.parameters r hr).overlay

/-- **Validation leaves what it accepts in order.** -/
theorem Ordered.validateFor {v : ValidComposition} (h : c.Ordered)
    (hv : validateFor purpose c = .ok v) : v.composition.Ordered := by
  refine ⟨?settings, ?groups⟩
  case settings =>
    rw [(validateFor_eq_ok hv).2]
    exact ⟨h.settings.buildConfig, h.settings.runConfig, h.settings.parameters⟩
  case groups =>
    intro g' hg'
    rw [groups_of_validateFor hv] at hg'
    obtain ⟨g, hg, rfl⟩ := List.mem_map.1 hg'
    exact h.withDefaults hg

/-- **A pick of groups is in order** if the whole is. -/
theorem Ordered.pickGroups {p : Composition} {indices : List Nat} (h : c.Ordered)
    (hp : c.pickGroups indices = .ok p) : p.Ordered := by
  unfold Composition.pickGroups at hp
  split at hp
  · cases hp
    exact ⟨h.settings, fun g hg => h.groups g (mem_of_mem_picked hg)⟩
  · cases hp

end Composition

end Conductor
