import Conductor.Build.Fingerprint
import Conductor.Engine.RunOrder
import Conductor.Proofs.Json.Text
import Conductor.Proofs.Table
/-!
# Configuration — what layers come to

Layers are put on top of each other, and behind that stands one table: that of all their
entries, in order (`coalesce_eq_ofList`). It is sorted whatever the layers are, so it is
known by its lookups, and a lookup in the upper layers goes before one in the lower ones
(`get?_coalesce_append`). From this come both laws: the last layer with a key has its value
(`get?_coalesce_eq_some`), and a run of layers can be coalesced on its own
(`coalesce_coalesce`).

A layer is a table, with one value for a key. For a list in which a key comes twice, the
lookup finds the first and the coalesced table has the last, so the first law asks for
sorted layers; the second asks for nothing.
-/

namespace Conductor

namespace ConfigTable

variable {layers layers' lower upper : List ConfigTable} {layer : ConfigTable} {key : String}
  {value : Json}

/-- **The last layer with the key** has the value. -/
def Wins (layers : List ConfigTable) (key : String) (value : Json) : Prop :=
  ∃ (lower : List ConfigTable) (layer : ConfigTable) (upper : List ConfigTable),
    layers = lower ++ layer :: upper ∧ Table.get? key layer = some value ∧
      ∀ t ∈ upper, Table.get? key t = none

theorem wins_append_singleton : Wins (layers ++ [layer]) key value ↔
    Table.get? key layer = some value ∨
      Table.get? key layer = none ∧ Wins layers key value := by
  constructor
  · rintro ⟨lower, t, upper, heq, hvalue, hupper⟩
    rcases List.eq_nil_or_concat upper with rfl | ⟨upper, u, rfl⟩
    · obtain ⟨-, heq⟩ := List.append_inj' heq rfl
      obtain rfl := List.singleton_inj.1 heq
      exact .inl hvalue
    · have hlast : layers ++ [layer] = lower ++ t :: upper ++ [u] := by simpa using heq
      obtain ⟨hlayers, heq⟩ := List.append_inj' hlast rfl
      obtain rfl := List.singleton_inj.1 heq
      simp only [List.concat_eq_append, List.forall_mem_append, List.forall_mem_singleton] at hupper
      exact .inr ⟨hupper.2, lower, t, upper, hlayers, hvalue, hupper.1⟩
  · rintro (hvalue | ⟨hnone, lower, t, upper, rfl, hvalue, hupper⟩)
    · exact ⟨layers, layer, [], rfl, hvalue, by simp⟩
    · refine ⟨lower, t, upper ++ [layer], by simp, hvalue, ?_⟩
      exact List.forall_mem_append.2 ⟨hupper, by simpa using hnone⟩

/-! ## Layers as one table -/

/-- Coalescing makes the table of all entries. -/
theorem coalesce_eq_ofList : coalesce layers = Table.ofList layers.flatten := by
  rw [Table.ofList, List.foldl_flatten]
  rfl

theorem sorted_coalesce (layers : List ConfigTable) : Table.Sorted (coalesce layers) := by
  rw [coalesce_eq_ofList]
  exact Table.sorted_ofList _

/-- **Upper layers go before lower ones**, with what they come to. -/
theorem get?_coalesce_append : Table.get? key (coalesce (lower ++ upper)) =
    (Table.get? key (coalesce upper)).or (Table.get? key (coalesce lower)) := by
  simp only [coalesce_eq_ofList, Table.get?_ofList, List.flatten_append, List.filter_append,
    List.getLast?_append, Option.map_or]

/-- Coalescing turns layers that lie above others into one overlay. -/
theorem coalesce_append (lower upper : List ConfigTable) :
    coalesce (lower ++ upper) = Table.overlay (coalesce lower) (coalesce upper) := by
  refine (sorted_coalesce _).ext (sorted_coalesce lower).overlay fun key => ?_
  rw [get?_coalesce_append, (sorted_coalesce upper).get?_overlay]

/-- A layer alone is what it comes to. -/
theorem coalesce_singleton (h : Table.Sorted layer) : coalesce [layer] = layer := by
  refine (sorted_coalesce _).ext h fun key => ?_
  have hone : coalesce [layer] = Table.overlay [] layer := rfl
  rw [hone, h.get?_overlay, Table.get?_nil, Option.or_none]

/-- **Layers in a row can be coalesced on their own.** -/
theorem coalesce_coalesce (lower run upper : List ConfigTable) :
    coalesce (lower ++ coalesce run :: upper) = coalesce (lower ++ run ++ upper) := by
  have hrow : lower ++ coalesce run :: upper = lower ++ [coalesce run] ++ upper := by simp
  rw [hrow, coalesce_append _ upper, coalesce_append _ upper, coalesce_append lower,
    coalesce_append lower, coalesce_singleton (sorted_coalesce run)]

/-! ## The value of a key -/

/-- **A lookup in layers** finds the value of the last one that has the key. -/
theorem get?_coalesce {layers : List ConfigTable} {key : String} (h : ∀ t ∈ layers, t.Sorted) :
    (coalesce layers).get? key =
      layers.foldl (fun below t => (Table.get? key t).or below) none := by
  induction layers using List.reverseRecOn with
  | nil => rfl
  | append_singleton layers t ih =>
    obtain ⟨hlayers, ht⟩ := List.forall_mem_append.1 h
    rw [get?_coalesce_append, coalesce_singleton (ht t (List.mem_singleton_self t)), ih hlayers,
      List.foldl_append]
    rfl

/-- **The value of a key** is that of the last layer with the key. -/
theorem get?_coalesce_eq_some (h : ∀ t ∈ layers, Table.Sorted t) :
    Table.get? key (coalesce layers) = some value ↔ Wins layers key value := by
  induction layers using List.reverseRecOn with
  | nil => simp [coalesce, Wins]
  | append_singleton layers t ih =>
    obtain ⟨hlayers, ht⟩ := List.forall_mem_append.1 h
    rw [get?_coalesce_append, coalesce_singleton (ht t (List.mem_singleton_self t)),
      Option.or_eq_some_iff, ih hlayers, wins_append_singleton]

/-- The keys are those of the layers. -/
theorem mem_keys_coalesce :
    key ∈ Table.keys (coalesce layers) ↔ ∃ t ∈ layers, key ∈ Table.keys t := by
  rw [coalesce_eq_ofList, Table.mem_keys_ofList, List.map_flatten, List.mem_flatten]
  simp only [List.mem_map, exists_exists_and_eq_and, Table.keys]

/-- Layers with the same values on top come to the same table. -/
theorem coalesce_congr (h : ∀ t ∈ layers, Table.Sorted t) (h' : ∀ t ∈ layers', Table.Sorted t)
    (hwins : ∀ key value, Wins layers key value ↔ Wins layers' key value) :
    coalesce layers = coalesce layers' := by
  refine (sorted_coalesce layers).ext (sorted_coalesce layers') fun key => ?_
  refine Option.ext fun value => ?_
  rw [get?_coalesce_eq_some h, get?_coalesce_eq_some h', hwins]

/-! ## The text of a table -/

/-- **The text tells the values**, and nothing else: not which layer had a value, and not
in which order the keys came. -/
theorem text_coalesce_eq_iff (h : (Json.object (coalesce layers)).IsFinite)
    (h' : (Json.object (coalesce layers')).IsFinite) :
    (Json.object (coalesce layers)).text = (Json.object (coalesce layers')).text ↔
      ∀ key, Table.get? key (coalesce layers) = Table.get? key (coalesce layers') := by
  constructor
  · intro htext key
    have hchars := String.ofList_injective htext
    have hends : Json.Ends [] := by simp [Json.Ends]
    have hobject := (Json.chars_append_inj _ _ h h' hends hends (congrArg (· ++ []) hchars)).1
    rw [Json.object.inj hobject]
  · intro hget
    rw [(sorted_coalesce layers).ext (sorted_coalesce layers') hget]

/-- **Layers** come to the table in which each key has the value of the last layer that has
it. A run of them can be coalesced on its own, and layers with the same values on top give
the same text and the same fingerprints. -/
theorem coalesced (layers : List ConfigTable) (h : ∀ t ∈ layers, Table.Sorted t) :
    (∀ key value, Table.get? key (coalesce layers) = some value ↔ Wins layers key value) ∧
    (∀ key, key ∈ Table.keys (coalesce layers) ↔ ∃ t ∈ layers, key ∈ Table.keys t) ∧
    (Table.keys (coalesce layers)).Pairwise (· < ·) ∧
    (Table.keys (coalesce layers)).Nodup ∧
    (∀ lower run upper, layers = lower ++ run ++ upper →
      coalesce (lower ++ coalesce run :: upper) = coalesce layers) ∧
    ∀ layers', (∀ t ∈ layers', Table.Sorted t) →
      (∀ key value, Wins layers key value ↔ Wins layers' key value) →
      (Json.object (coalesce layers)).text = (Json.object (coalesce layers')).text ∧
      ∀ builder plan buildKey, fingerprint builder plan buildKey (.object (coalesce layers)) =
        fingerprint builder plan buildKey (.object (coalesce layers')) := by
  have hsorted := sorted_coalesce layers
  refine ⟨fun _ _ => get?_coalesce_eq_some h, fun _ => mem_keys_coalesce,
    List.pairwise_map.2 hsorted, hsorted.nodup_keys, ?_, ?_⟩
  · rintro lower run upper rfl
    exact coalesce_coalesce lower run upper
  · intro layers' h' hwins
    rw [coalesce_congr h h' hwins]
    exact ⟨rfl, fun _ _ _ => rfl⟩

/-- Layers with a version over that of the environment, a table over a table, and a key of
the group alone. -/
def threeLayers : List ConfigTable := [
  [("go_version", .string "1.14"), ("proxy", .object [("host", .null)])],
  [("go_version", .string "1.15"), ("proxy", .object [("port", .null)])],
  [("fresh", .bool true)]]

theorem coalesced_three : (∀ t ∈ threeLayers, Table.Sorted t) ∧
    Table.keys (coalesce threeLayers) = ["fresh", "go_version", "proxy"] ∧
    Wins threeLayers "proxy" (.object [("port", .null)]) := by
  have hsorted : ∀ t ∈ threeLayers, Table.Sorted t := by
    unfold Table.Sorted
    decide
  obtain ⟨hvalue, -⟩ := coalesced threeLayers hsorted
  exact ⟨hsorted, by decide, (hvalue _ _).1 rfl⟩

end ConfigTable

/-- The configuration of a group in a run is its own on top of that of the run. -/
theorem RunOrder.groupConfig_eq (o : RunOrder) (e : Engine) (g : Group) :
    o.groupConfig e g = ConfigTable.coalesce [o.config e, g.runConfig] :=
  (ConfigTable.coalesce_coalesce []
    [e.environment.runnerLayer o.runner.id, o.composition.composition.settings.runConfig]
    [g.runConfig]).symm

end Conductor
