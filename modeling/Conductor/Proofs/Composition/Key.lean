import Conductor.Composition.Key
import Conductor.Proofs.Json.Nesting
import Conductor.Proofs.Table
import Conductor.Proofs.Text.Separator
/-!
# Compositions — the text of a build key

A key lists what a group asks for: its selectors without repetitions, its
dependencies with those of one module in their order, and its own configuration.
What is lost by the sorting does not matter to a build (`mem_sortDistinct`,
`versions_congr`). The configuration can be read off the key, whatever stands in
front of it (`Group.buildKey_eq_iff`), since no text of a value ends inside a string.
Selectors, modules and versions stand between separators without being escaped
(`toList_key`), so it depends on their characters whether they can be read off too.
-/

namespace Conductor

/-! ## The order of the requests -/

theorem mem_insertSorted {x y : String} {ys : List String} :
    x ∈ insertSorted y ys ↔ x = y ∨ x ∈ ys := by
  induction ys with
  | nil => simp [insertSorted]
  | cons z zs ih =>
    simp only [insertSorted]
    split
    · simp
    · split
      · rename_i hyz
        subst hyz
        simp
      · simp only [List.mem_cons, ih]
        tauto

@[simp] theorem mem_sortDistinct {x : String} {xs : List String} :
    x ∈ sortDistinct xs ↔ x ∈ xs := by
  induction xs with
  | nil => simp [sortDistinct]
  | cons y ys ih =>
    simp only [sortDistinct, List.foldr_cons] at ih ⊢
    rw [mem_insertSorted, ih, List.mem_cons]

theorem sorted_insertSorted {x : String} {xs : List String} (h : xs.Pairwise (· < ·)) :
    (insertSorted x xs).Pairwise (· < ·) := by
  induction xs with
  | nil => exact List.pairwise_singleton _ _
  | cons y ys ih =>
    obtain ⟨hy, hys⟩ := List.pairwise_cons.1 h
    simp only [insertSorted]
    split
    · rename_i hlt
      exact List.pairwise_cons.2 ⟨List.forall_mem_cons.2 ⟨hlt, fun z hz => hlt.trans (hy z hz)⟩, h⟩
    · rename_i hlt
      split
      · exact h
      · rename_i hne
        refine List.pairwise_cons.2 ⟨fun z hz => ?_, ih hys⟩
        rcases mem_insertSorted.1 hz with rfl | hz
        · exact lt_of_le_of_ne (not_lt.1 hlt) (Ne.symm hne)
        · exact hy z hz

theorem sorted_sortDistinct (xs : List String) : (sortDistinct xs).Pairwise (· < ·) := by
  induction xs with
  | nil => exact .nil
  | cons x xs ih => exact sorted_insertSorted ih

/-- Lists with the same members are sorted into one list. -/
theorem sortDistinct_eq_iff {xs ys : List String} :
    sortDistinct xs = sortDistinct ys ↔ ∀ s, s ∈ xs ↔ s ∈ ys := by
  refine ⟨fun h s => by rw [← mem_sortDistinct, h, mem_sortDistinct], fun h => ?_⟩
  have hnodup : ∀ zs, (sortDistinct zs).Nodup := fun zs => (sorted_sortDistinct zs).imp ne_of_lt
  have hperm : (sortDistinct xs).Perm (sortDistinct ys) :=
    (List.perm_ext_iff_of_nodup (hnodup xs) (hnodup ys)).2 fun s => by simp [h s]
  exact hperm.eq_of_pairwise (fun _ _ _ _ hlt hlt' => absurd hlt (lt_asymm hlt'))
    (sorted_sortDistinct xs) (sorted_sortDistinct ys)

namespace BuildOptions

variable {b b' : BuildOptions} {d : Dependency} {ds ds' : List Dependency}

/-- An insertion keeps the entries of each module in their order. -/
theorem filter_insertDependency (k : String) :
    (insertDependency d ds).filter (·.package = k) = (d :: ds).filter (·.package = k) := by
  induction ds with
  | nil => rfl
  | cons e es ih =>
    simp only [insertDependency]
    split
    · rename_i hlt
      rw [List.filter_cons, ih]
      -- the two entries that change places are of different modules
      by_cases he : e.package = k
      · have hd : d.package ≠ k := he ▸ ne_of_gt hlt
        simp [he, hd]
      · simp [List.filter_cons, he]
    · rfl

/-- So does sorting. -/
theorem filter_sortedDependencies (k : String) :
    b.sortedDependencies.filter (·.package = k) = b.dependencies.filter (·.package = k) := by
  rw [sortedDependencies]
  induction b.dependencies with
  | nil => rfl
  | cons d ds ih => rw [List.foldr_cons, filter_insertDependency, List.filter_cons, ih,
      List.filter_cons]

theorem mem_sortedDependencies : d ∈ b.sortedDependencies ↔ d ∈ b.dependencies := by
  have h := congrArg (d ∈ ·) (filter_sortedDependencies (b := b) d.package)
  simpa using h

/-- The sorted dependencies tell the version asked for each module. -/
theorem versions_congr (h : b.sortedDependencies = b'.sortedDependencies) :
    b.versions = b'.versions := by
  refine Table.ofList_congr fun k => ?_
  rw [List.filter_map, List.filter_map]
  change (b.dependencies.filter (·.package = k)).map _ =
    (b'.dependencies.filter (·.package = k)).map _
  rw [← filter_sortedDependencies, ← filter_sortedDependencies, h]

/-! ## The text of a key -/

/-- The text between the selectors and the dependencies. -/
def label : List Char := ';' :: "dependencies=".toList

/-- The text of the selectors. -/
def selectorChars (b : BuildOptions) : List Char :=
  [','].intercalate ((sortDistinct b.selectors).map String.toList)

/-- The text of dependencies. -/
def dependencyChars (ds : List Dependency) : List Char :=
  ds.flatMap fun d => d.package.toList ++ ':' :: (d.version.toList ++ ['|'])

@[simp] theorem dependencyChars_nil : dependencyChars [] = [] := rfl

@[simp] theorem dependencyChars_cons : dependencyChars (d :: ds) =
    d.package.toList ++ ':' :: (d.version.toList ++ '|' :: dependencyChars ds) := by
  simp [dependencyChars]

/-- The characters of a key. -/
theorem toList_key : b.key.toList = "selectors=".toList ++
    (b.selectorChars ++ (label ++ dependencyChars b.sortedDependencies)) := by
  have hdeps : (b.sortedDependencies.map dependencyKey).flatMap String.toList =
      dependencyChars b.sortedDependencies := by
    simp [dependencyChars, List.flatMap_map, dependencyKey]
  have hlabel : ";dependencies=".toList = label := rfl
  simp [key, String.toList_append, String.toList_intercalate, String.toList_join, hdeps, hlabel,
    selectorChars, List.append_assoc]

end BuildOptions

/-! ## The configuration in a key -/

/-- **The key of a group tells the group's own configuration**, and the key of its
requests, whatever these are made of. -/
theorem Group.buildKey_eq_iff {g g' : Group} (h : (Json.object g.buildConfig).IsFinite)
    (h' : (Json.object g'.buildConfig).IsFinite) :
    g.buildKey = g'.buildKey ↔ g.build.key = g'.build.key ∧ g.buildConfig = g'.buildConfig := by
  refine ⟨fun heq => ?_, fun ⟨hkey, hconfig⟩ => by rw [buildKey, buildKey, hkey, hconfig]⟩
  have hplain : ∀ c ∈ "config=".toList, c ∉ ['"', '\\', ';'] := by simp
  have hchars : g.build.key.toList ++ (';' :: "config=".toList ++ (Json.object g.buildConfig).chars)
      = g'.build.key.toList ++
        (';' :: "config=".toList ++ (Json.object g'.buildConfig).chars) := by
    have := congrArg String.toList heq
    simpa [buildKey, Json.objectText, Json.text] using this
  rcases Text.marker_cases (by decide) hchars with
    ⟨hkey, hconfig⟩ | ⟨rest, -, hrest⟩ | ⟨rest, -, hrest⟩
  · have hends : Json.Ends [] := by simp [Json.Ends]
    have hobject := (Json.chars_append_inj _ _ h h' hends hends (by simpa using hconfig)).1
    exact ⟨String.toList_injective hkey, Json.object.inj hobject⟩
  -- otherwise one configuration would stand behind a semicolon of the other
  · exact absurd (by simpa using hrest) (Json.chars_ne_behind_semicolon h h' hplain)
  · exact absurd (by simpa using hrest) (Json.chars_ne_behind_semicolon h' h hplain)

end Conductor
