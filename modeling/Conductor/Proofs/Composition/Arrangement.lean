import Conductor.Proofs.Composition.Defaults
import Conductor.Proofs.Composition.Key
import Mathlib.Logic.Relation
/-!
# Compositions — the arrangement of a build

A build may name its selectors in any order and more than once, and its dependencies in any
order that keeps those of one module as they are. `BuildOptions.Move` is one change of this
kind, and builds are arranged alike when such changes lead from one to the other
(`BuildOptions.Rearranged`). They are then the builds that name the same selectors and have
the same entries for each module (`BuildOptions.rearranged_iff`), and sorting takes them to
one form (`BuildOptions.alike_iff_sorted`): so they have one key and ask for the same
versions. Defaults take nothing away from this (`BuildOptions.Alike.withDefaults`).
-/

namespace Conductor

namespace BuildOptions

/-- One change in the arrangement of a build. -/
inductive Move : BuildOptions → BuildOptions → Prop
  /-- The selectors change places. -/
  | permute {xs ys : List String} {ds : List Dependency} : xs.Perm ys → Move ⟨xs, ds⟩ ⟨ys, ds⟩
  /-- A selector that is there is named again. -/
  | again {x : String} {xs : List String} {ds : List Dependency} :
    x ∈ xs → Move ⟨xs, ds⟩ ⟨x :: xs, ds⟩
  /-- The dependencies change places, but those of one module keep their order. -/
  | reorder {xs : List String} {ds ds' : List Dependency} : ds.Perm ds' →
    (∀ package, ds.filter (·.package = package) = ds'.filter (·.package = package)) →
      Move ⟨xs, ds⟩ ⟨xs, ds'⟩

/-- The builds differ in their arrangement only. -/
def Rearranged : BuildOptions → BuildOptions → Prop := Relation.EqvGen Move

/-- **What a change of the arrangement leaves alone**: which selectors are named, and the
entries for each module. -/
structure Alike (b b' : BuildOptions) : Prop where
  selectors : ∀ s, s ∈ b.selectors ↔ s ∈ b'.selectors
  dependencies : ∀ package, b.dependencies.filter (·.package = package) =
    b'.dependencies.filter (·.package = package)

variable {b b' d : BuildOptions} {x : Dependency} {ds ds' : List Dependency} {package : String}

/-! ## Changes of the arrangement -/

theorem alike_equivalence : Equivalence Alike where
  refl _ := ⟨fun _ => Iff.rfl, fun _ => rfl⟩
  symm h := ⟨fun s => (h.selectors s).symm, fun package => (h.dependencies package).symm⟩
  trans h h' := ⟨fun s => (h.selectors s).trans (h'.selectors s),
    fun package => (h.dependencies package).trans (h'.dependencies package)⟩

/-- One change leaves these alone. -/
theorem Move.alike (h : Move b b') : b.Alike b' := by
  cases h with
  | permute hperm => exact ⟨fun s => hperm.mem_iff, fun _ => rfl⟩
  | again hmem =>
    refine ⟨fun s => ?_, fun _ => rfl⟩
    constructor
    · exact List.mem_cons_of_mem _
    · intro hs
      rcases List.mem_cons.1 hs with rfl | hs
      · exact hmem
      · exact hs
  | reorder _ horder => exact ⟨fun _ => Iff.rfl, horder⟩

/-- The entries for each module are all entries. -/
theorem perm_of_filter_eq
    (h : ∀ package, ds.filter (·.package = package) = ds'.filter (·.package = package)) :
    ds.Perm ds' := by
  refine List.perm_iff_count.2 fun x => ?_
  have hcount : ∀ es : List Dependency, (es.filter (·.package = x.package)).count x = es.count x :=
    fun es => List.count_filter (by simp)
  rw [← hcount ds, ← hcount ds', h x.package]

/-- Selectors that are there may all be named again. -/
theorem rearranged_append {xs ys : List String} (h : ∀ s ∈ ys, s ∈ xs) :
    Rearranged ⟨xs, ds⟩ ⟨ys ++ xs, ds⟩ := by
  induction ys with
  | nil => exact .refl _
  | cons y ys ih =>
    have hy : y ∈ ys ++ xs := List.mem_append_right ys (h y List.mem_cons_self)
    have hys : Rearranged ⟨xs, ds⟩ ⟨ys ++ xs, ds⟩ := ih fun s hs => h s (List.mem_cons_of_mem y hs)
    exact .trans _ _ _ hys (.rel _ _ (.again hy))

/-- **Nothing else is left alone**: builds that are alike differ in their arrangement only. -/
theorem rearranged_iff : Rearranged b b' ↔ b.Alike b' := by
  constructor
  · intro h
    exact alike_equivalence.eqvGen_iff.1 (h.mono fun _ _ => Move.alike)
  · intro h
    obtain ⟨xs, ds⟩ := b
    obtain ⟨ys, ds'⟩ := b'
    -- both lists of selectors are named, one behind the other, and then one is dropped
    have hleft : Rearranged ⟨xs, ds⟩ ⟨ys ++ xs, ds⟩ :=
      rearranged_append fun s hs => (h.selectors s).2 hs
    have hswap : Rearranged ⟨ys ++ xs, ds⟩ ⟨xs ++ ys, ds⟩ :=
      .rel _ _ (.permute List.perm_append_comm)
    have hright : Rearranged ⟨ys, ds⟩ ⟨xs ++ ys, ds⟩ :=
      rearranged_append fun s hs => (h.selectors s).1 hs
    have hdependencies : Rearranged ⟨ys, ds⟩ ⟨ys, ds'⟩ :=
      .rel _ _ (.reorder (perm_of_filter_eq h.dependencies) h.dependencies)
    exact .trans _ _ _ (.trans _ _ _ hleft hswap) (.trans _ _ _ (.symm _ _ hright) hdependencies)

/-! ## The sorted form -/

theorem mem_insertDependency {y : Dependency} :
    y ∈ insertDependency x ds ↔ y = x ∨ y ∈ ds := by
  have hfilter : (insertDependency x ds).filter (·.package = y.package) =
      (x :: ds).filter (·.package = y.package) := filter_insertDependency y.package
  have h := congrArg (y ∈ ·) hfilter
  simpa using h

theorem sorted_insertDependency (h : ds.Pairwise (·.package ≤ ·.package)) :
    (insertDependency x ds).Pairwise (·.package ≤ ·.package) := by
  induction ds with
  | nil => exact List.pairwise_singleton _ _
  | cons e es ih =>
    obtain ⟨he, hes⟩ := List.pairwise_cons.1 h
    simp only [insertDependency]
    split
    · rename_i hlt
      refine List.pairwise_cons.2 ⟨fun y hy => ?_, ih hes⟩
      rcases mem_insertDependency.1 hy with rfl | hy
      · exact le_of_lt hlt
      · exact he y hy
    · rename_i hlt
      have hle : x.package ≤ e.package := not_lt.1 hlt
      exact List.pairwise_cons.2
        ⟨List.forall_mem_cons.2 ⟨hle, fun y hy => hle.trans (he y hy)⟩, h⟩

theorem sorted_sortedDependencies (b : BuildOptions) :
    b.sortedDependencies.Pairwise (·.package ≤ ·.package) := by
  rw [sortedDependencies]
  induction b.dependencies with
  | nil => exact .nil
  | cons x ds ih => exact sorted_insertDependency ih

/-- The first of sorted dependencies is the first of its module, and no module is before it. -/
theorem head_eq_of_filter_eq {y : Dependency} (h : (x :: ds).Pairwise (·.package ≤ ·.package))
    (h' : (y :: ds').Pairwise (·.package ≤ ·.package))
    (heq : ∀ package, (x :: ds).filter (·.package = package) =
      (y :: ds').filter (·.package = package)) : x = y := by
  have hperm : (x :: ds).Perm (y :: ds') := perm_of_filter_eq heq
  have hxy : x.package ≤ y.package := by
    rcases List.mem_cons.1 (hperm.mem_iff.2 List.mem_cons_self) with rfl | hy
    · exact le_refl _
    · exact (List.pairwise_cons.1 h).1 y hy
  have hyx : y.package ≤ x.package := by
    rcases List.mem_cons.1 (hperm.mem_iff.1 List.mem_cons_self) with rfl | hx
    · exact le_refl _
    · exact (List.pairwise_cons.1 h').1 x hx
  have hpackage : y.package = x.package := le_antisymm hyx hxy
  have hfirst := heq x.package
  rw [List.filter_cons_of_pos (by simp), List.filter_cons_of_pos (by simpa using hpackage)] at hfirst
  exact (List.cons.inj hfirst).1

/-- **Sorted dependencies are known** from the entries for each module. -/
theorem eq_of_filter_eq (h : ds.Pairwise (·.package ≤ ·.package))
    (h' : ds'.Pairwise (·.package ≤ ·.package))
    (heq : ∀ package, ds.filter (·.package = package) = ds'.filter (·.package = package)) :
    ds = ds' := by
  induction ds generalizing ds' with
  | nil => exact (perm_of_filter_eq heq).nil_eq
  | cons x ds ih =>
    cases ds' with
    | nil => exact (perm_of_filter_eq heq).eq_nil
    | cons y ds' =>
      obtain rfl := head_eq_of_filter_eq h h' heq
      refine congrArg (x :: ·) (ih (List.pairwise_cons.1 h).2 (List.pairwise_cons.1 h').2 ?_)
      intro package
      have hpackage := heq package
      rw [List.filter_cons, List.filter_cons] at hpackage
      split at hpackage
      · exact (List.cons.inj hpackage).2
      · exact hpackage

/-- **Sorting takes builds that are alike to one form**, and no others. -/
theorem alike_iff_sorted : b.Alike b' ↔
    sortDistinct b.selectors = sortDistinct b'.selectors ∧
      b.sortedDependencies = b'.sortedDependencies := by
  constructor
  · intro h
    refine ⟨sortDistinct_eq_iff.2 h.selectors, ?_⟩
    refine eq_of_filter_eq (sorted_sortedDependencies b) (sorted_sortedDependencies b') ?_
    intro package
    rw [filter_sortedDependencies, filter_sortedDependencies, h.dependencies]
  · rintro ⟨hselectors, hdependencies⟩
    refine ⟨sortDistinct_eq_iff.1 hselectors, fun package => ?_⟩
    rw [← filter_sortedDependencies, hdependencies, filter_sortedDependencies]

namespace Alike

/-- So they have one key. -/
theorem key_eq (h : b.Alike b') : b.key = b'.key := by
  obtain ⟨hselectors, hdependencies⟩ := alike_iff_sorted.1 h
  rw [key, key, hselectors, hdependencies]

/-- And they ask for the same versions. -/
theorem versions_eq (h : b.Alike b') : b.versions = b'.versions :=
  versions_congr (alike_iff_sorted.1 h).2

/-- The modules that they name are the same. -/
theorem names_iff (h : b.Alike b') : b.Names package ↔ b'.Names package := by
  have hversion : b.version? package = b'.version? package := by
    rw [version?, version?, h.dependencies]
  have hnone : ¬ b.Names package ↔ ¬ b'.Names package := by
    rw [← version?_eq_none, ← version?_eq_none, hversion]
  exact not_iff_not.1 hnone

/-- **They are alike over the same defaults**: neither has selectors where the other has none,
and neither names a module that the other leaves to the defaults. -/
theorem withDefaults (h : b.Alike b') : (b.over d).Alike (b'.over d) := by
  have hempty : b.selectors.isEmpty = b'.selectors.isEmpty := by
    rw [Bool.eq_iff_iff, List.isEmpty_iff, List.isEmpty_iff, List.eq_nil_iff_forall_not_mem,
      List.eq_nil_iff_forall_not_mem]
    exact forall_congr' fun s => not_congr (h.selectors s)
  refine ⟨fun s => ?_, fun package => ?_⟩
  · simp only [BuildOptions.over, hempty]
    split
    · exact Iff.rfl
    · exact h.selectors s
  · rw [filter_over, filter_over, h.dependencies]
    exact if_congr h.names_iff rfl rfl

end Alike

end BuildOptions

namespace Group

variable {g g' : Group}

/-- The groups differ in the arrangement of their builds only, as far as these are concerned. -/
structure Rearranged (g g' : Group) : Prop where
  build : g.build.Rearranged g'.build
  buildConfig : g.buildConfig = g'.buildConfig

namespace Rearranged

/-- **Groups that are rearranged have one key.** -/
theorem buildKey_eq (h : g.Rearranged g') : g.buildKey = g'.buildKey := by
  rw [buildKey, buildKey, (BuildOptions.rearranged_iff.1 h.build).key_eq, h.buildConfig]

/-- The defaults keep them so. -/
theorem withDefaults (h : g.Rearranged g') (s : Settings) :
    (Composition.withDefaults s g).Rearranged (Composition.withDefaults s g') := by
  refine ⟨?_, h.buildConfig⟩
  unfold Composition.withDefaults
  cases s.build with
  | none => exact h.build
  | some d =>
    exact BuildOptions.rearranged_iff.2 (BuildOptions.rearranged_iff.1 h.build).withDefaults

end Rearranged

end Group

end Conductor
