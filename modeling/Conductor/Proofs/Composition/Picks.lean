import Conductor.Proofs.Composition.Acceptance
import Mathlib.Data.List.Perm.Basic
/-!
# Compositions — picking groups

A composition is built in part by picking groups of it. The picked composition has the settings
of the whole one, its total included. So when a total is given, a part of the groups does not
fit it: each group that is left out has instances, and they are missing from the sum
(`totalOf_picked`). That is the only thing that can be wrong with a pick from a composition
that is valid: with no total given, or no group left out, the pick is valid, and its groups are
built as in the whole (`Composition.picked_valid`).
-/

namespace Conductor

/-- The members of a list at indices, in the order of the indices. -/
def picked {α : Type} (indices : List Nat) (xs : List α) : List α :=
  indices.filterMap fun i => xs[i]?

/-! ## Members at indices -/

section

variable {α β : Type} {indices : List Nat} {xs : List α} {ys : List β} {x : α}

theorem mem_of_mem_picked (h : x ∈ picked indices xs) : x ∈ xs := by
  obtain ⟨i, -, hi⟩ := List.mem_filterMap.1 h
  exact List.mem_of_getElem? hi

theorem map_picked (f : α → β) : (picked indices xs).map f = picked indices (xs.map f) := by
  simp only [picked, List.map_filterMap, List.getElem?_map]

/-- What is related is picked in pairs. -/
theorem forall₂_picked {R : α → β → Prop} (h : List.Forall₂ R xs ys) :
    List.Forall₂ R (picked indices xs) (picked indices ys) := by
  induction indices with
  | nil => exact .nil
  | cons i is ih =>
    rcases Nat.lt_or_ge i xs.length with hlt | hge
    · have hlt' : i < ys.length := h.length_eq ▸ hlt
      simp only [picked, List.filterMap_cons, List.getElem?_eq_getElem hlt,
        List.getElem?_eq_getElem hlt']
      exact .cons (h.get hlt hlt') ih
    · have hge' : ys.length ≤ i := h.length_eq ▸ hge
      simp only [picked, List.filterMap_cons, List.getElem?_eq_none hge,
        List.getElem?_eq_none hge']
      exact ih

/-- **Each index in range picks its member.** -/
theorem map_some_picked (h : ∀ i ∈ indices, i < xs.length) :
    (picked indices xs).map some = indices.map fun i => xs[i]? := by
  induction indices with
  | nil => rfl
  | cons i is ih =>
    obtain ⟨hi, his⟩ := List.forall_mem_cons.1 h
    have hrest := ih his
    simp only [picked, List.filterMap_cons, List.getElem?_eq_getElem hi, List.map_cons] at hrest ⊢
    rw [hrest]

theorem length_picked (h : ∀ i ∈ indices, i < xs.length) :
    (picked indices xs).length = indices.length := by
  have hmap := congrArg List.length (map_some_picked h)
  simpa using hmap

theorem picked_range : picked (List.range xs.length) xs = xs := by
  refine List.map_injective_iff.2 (fun _ _ => Option.some.inj) ?_
  rw [map_some_picked fun i hi => List.mem_range.1 hi]
  refine List.ext_getElem (by simp) fun i hi hi' => ?_
  have hlt : i < xs.length := by simpa using hi
  simp [hlt]

/-- The indices below a bound that are left out. -/
def leftOut (indices : List Nat) (n : Nat) : List Nat :=
  (List.range n).filter fun i => i ∉ indices

/-- **A list is what is picked and what is left out.** -/
theorem picked_append_leftOut_perm (hdistinct : indices.Nodup)
    (hrange : ∀ i ∈ indices, i < xs.length) :
    (picked indices xs ++ picked (leftOut indices xs.length) xs).Perm xs := by
  have hindices : (indices ++ leftOut indices xs.length).Perm (List.range xs.length) := by
    have hnodup : (indices ++ leftOut indices xs.length).Nodup := by
      refine List.nodup_append.2 ⟨hdistinct, List.nodup_range.filter _, fun i hi j hj => ?_⟩
      rintro rfl
      simp [leftOut, hi] at hj
    refine (List.perm_ext_iff_of_nodup hnodup List.nodup_range).2 fun i => ?_
    simp only [leftOut, List.mem_append, List.mem_filter, List.mem_range, decide_eq_true_eq]
    constructor
    · rintro (hi | ⟨hi, -⟩)
      · exact hrange i hi
      · exact hi
    · intro hi
      by_cases hmem : i ∈ indices
      · exact .inl hmem
      · exact .inr ⟨hi, hmem⟩
  have hperm : (picked (indices ++ leftOut indices xs.length) xs).Perm
      (picked (List.range xs.length) xs) := hindices.filterMap _
  rw [picked_range] at hperm
  simpa only [picked, List.filterMap_append] using hperm

theorem nodup_picked (hdistinct : indices.Nodup) (hrange : ∀ i ∈ indices, i < xs.length)
    (h : xs.Nodup) : (picked indices xs).Nodup :=
  (List.nodup_append.1 ((picked_append_leftOut_perm hdistinct hrange).nodup_iff.2 h)).1

/-- **The numbers left out are missing from the sum.** When all are positive, the sum of those
picked is the whole sum exactly if none is left out. -/
theorem totalOf_picked {ns : List Nat} (hdistinct : indices.Nodup)
    (hrange : ∀ i ∈ indices, i < ns.length) (hpos : ∀ n ∈ ns, 0 < n) :
    totalOf (picked indices ns) ≤ totalOf ns ∧
      (totalOf (picked indices ns) = totalOf ns ↔ indices.length = ns.length) := by
  have hperm := picked_append_leftOut_perm hdistinct hrange
  have hsum : totalOf (picked indices ns) + totalOf (picked (leftOut indices ns.length) ns) =
      totalOf ns := by
    have h := hperm.sum_nat
    rwa [List.sum_append_nat] at h
  have hlength : indices.length + (picked (leftOut indices ns.length) ns).length = ns.length := by
    have h := hperm.length_eq
    rwa [List.length_append, length_picked hrange] at h
  have hleft : ∀ n ∈ picked (leftOut indices ns.length) ns, 0 < n :=
    fun n hn => hpos n (mem_of_mem_picked hn)
  generalize picked (leftOut indices ns.length) ns = left at *
  refine ⟨by omega, ?_⟩
  cases left with
  | nil =>
    have hnone : totalOf [] = 0 := rfl
    simp only [List.length_nil] at hlength
    exact iff_of_true (by omega) (by omega)
  | cons n left =>
    have hn : 0 < n := hleft n List.mem_cons_self
    have hcons : totalOf (n :: left) = n + totalOf left := rfl
    simp only [List.length_cons] at hlength
    exact iff_of_false (by omega) (by omega)

end

/-! ## Compositions -/

namespace Composition

variable {purpose : Purpose} {c : Composition} {v : ValidComposition} {indices : List Nat}
  {total : Nat} {gs : List Group} {ns : List Nat}

/-- Picking succeeds when every index is in range, and changes nothing but the groups. -/
theorem pickGroups_eq_ok (hrange : ∀ i ∈ indices, i < c.groups.length) :
    c.pickGroups indices = .ok { c with groups := picked indices c.groups } := by
  have hnone : indices.filter (fun i => c.groups.length ≤ i) = [] :=
    List.filter_eq_nil_iff.2 fun i hi => by simpa using hrange i hi
  rw [pickGroups, hnone]
  rfl

/-- Clean groups are clean in any part. -/
theorem clean_picked (h : GroupWalk.Clean total [] gs ns) (hdistinct : indices.Nodup)
    (hrange : ∀ i ∈ indices, i < gs.length) :
    GroupWalk.Clean total [] (picked indices gs) (picked indices ns) where
  ids := fun g hg => h.ids g (mem_of_mem_picked hg)
  distinct := by
    rw [map_picked]
    exact nodup_picked hdistinct (by simpa using hrange) h.distinct
  sizes := forall₂_picked h.sizes

/-- **A part of groups that fit a total** fits it if there is none, or if it is no part but the
whole. -/
theorem fits_picked_iff (h : Fits total gs ns) (hdistinct : indices.Nodup)
    (hrange : ∀ i ∈ indices, i < gs.length) :
    Fits total (picked indices gs) (picked indices ns) ↔
      total = 0 ∨ indices.length = gs.length := by
  have hlength : gs.length = ns.length := h.clean.sizes.length_eq
  have hpos : ∀ n ∈ ns, 0 < n := by
    intro n hn
    obtain ⟨i, hi, rfl⟩ := List.mem_iff_getElem.1 hn
    exact (h.clean.sizes.get (hlength ▸ hi) hi).pos
  obtain ⟨hle, heq⟩ := totalOf_picked hdistinct (hlength ▸ hrange) hpos
  have hclean := clean_picked h.clean hdistinct hrange
  have htotal := h.total
  rw [hlength, ← heq]
  constructor
  · intro hfits
    have hpicked := hfits.total
    omega
  · intro hwhole
    exact ⟨hclean, by omega⟩

/-- The numbers at indices in range. -/
theorem picked_counts (v : ValidComposition) (hrange : ∀ i ∈ indices, i < v.counts.length) :
    picked indices v.counts = indices.map v.count := by
  refine List.filterMap_eq_map_iff_forall_eq_some.2 fun i hi => ?_
  have hlt := hrange i hi
  rw [List.getElem?_eq_getElem hlt, ValidComposition.count, List.getD_eq_getElem _ _ hlt]

/-- A total that differs from the sum is all that is reported, if nothing else is wrong. -/
theorem validateFor_of_misfit {builder : Selector} {runner : Option Selector}
    (haccepted : c.settings.Accepted purpose builder runner) (hgroups : c.groups ≠ [])
    (hclean : GroupWalk.Clean c.settings.total [] c.groups ns) (hgiven : c.settings.total ≠ 0)
    (hsum : c.settings.total ≠ totalOf ns) :
    validateFor purpose c = .error [.totalMismatch c.settings.total (totalOf ns)] := by
  have hsettings := settingsViolations_of_accepted haccepted hgroups
  obtain ⟨hviolations, hcounts, hresolved⟩ := walk_of_clean purpose hclean
  have htotal : totalViolations c.settings.total (walk purpose c) =
      [.totalMismatch c.settings.total (totalOf ns)] := by
    rw [totalViolations, if_neg hgiven, hcounts, if_pos ⟨hresolved, hsum⟩]
  have hmismatch : violations purpose c =
      [.totalMismatch c.settings.total (totalOf ns)] := by
    rw [violations, hviolations, hsettings, htotal, List.nil_append]
  rw [← hmismatch]
  exact validateFor_eq_error (by simp [hmismatch])

/-- The groups of a valid pick are picked from those of the whole, defaults and all. -/
theorem groups_of_pick {v' : ValidComposition} (h : validateFor purpose c = .ok v)
    (h' : validateFor purpose { c with groups := picked indices c.groups } = .ok v') :
    v'.composition.groups = picked indices v.composition.groups := by
  rw [groups_of_validateFor h', groups_of_validateFor h, map_picked]

/-- **Partial builds of a valid composition.** A pick of groups, not empty and none twice, is
made of these groups and the settings of the whole. If no total is given, or no group is left
out, it is valid as the whole is: with the same selectors, and each group with its number of
instances and with what it asks for over the defaults. Otherwise the total is the one thing
that is wrong with it. -/
theorem picked_valid (h : validateFor purpose c = .ok v) (hne : indices ≠ [])
    (hdistinct : indices.Nodup) (hrange : ∀ i ∈ indices, i < c.groups.length) :
    ∃ p, c.pickGroups indices = .ok p ∧ p.settings = c.settings ∧
      (p.groups.map some = indices.map fun i => c.groups[i]?) ∧
      if c.settings.total = 0 ∨ indices.length = c.groups.length then
        ∃ v', validateFor purpose p = .ok v' ∧ v'.builder = v.builder ∧ v'.runner = v.runner ∧
          v'.counts = indices.map v.count ∧
          v'.composition.groups.map some = indices.map fun i => v.composition.groups[i]?
      else validateFor purpose p =
        .error [.totalMismatch c.settings.total (totalOf (indices.map v.count))] := by
  obtain ⟨haccepted, -, hfits, -⟩ := validateFor_eq_ok_iff.1 h
  have hlength : c.groups.length = v.counts.length := hfits.clean.sizes.length_eq
  have hcounts := picked_counts v (hlength ▸ hrange)
  have hiff := fits_picked_iff hfits hdistinct hrange
  have hnonempty : picked indices c.groups ≠ [] := by
    intro hnil
    have hzero := length_picked hrange
    rw [hnil] at hzero
    exact hne (List.eq_nil_of_length_eq_zero hzero.symm)
  refine ⟨_, pickGroups_eq_ok hrange, rfl, map_some_picked hrange, ?_⟩
  rw [← hcounts]
  split
  · rename_i hwhole
    have hvalid : validateFor purpose { c with groups := picked indices c.groups } =
        .ok ⟨complete _ (picked indices v.counts), v.builder, v.runner, picked indices v.counts⟩ :=
      validateFor_eq_ok_iff.2 ⟨haccepted, hnonempty, hiff.2 hwhole, rfl⟩
    have hsame : v.composition.groups.length = c.groups.length := by
      rw [groups_of_validateFor h, List.length_map]
    refine ⟨_, hvalid, rfl, rfl, rfl, ?_⟩
    rw [groups_of_pick h hvalid]
    exact map_some_picked fun i hi => hsame ▸ hrange i hi
  · rename_i hpart
    have hclean := clean_picked hfits.clean hdistinct hrange
    have hsum : c.settings.total ≠ totalOf (picked indices v.counts) := by
      intro heq
      exact hpart (hiff.1 ⟨hclean, .inr heq⟩)
    have hgiven : c.settings.total ≠ 0 := fun hzero => hpart (.inl hzero)
    exact validateFor_of_misfit (c := { c with groups := picked indices c.groups }) haccepted
      hnonempty hclean hgiven hsum

/-- A total of four, as one and three. -/
def oneAndThree : Composition where
  metadata := ⟨"", ""⟩
  settings := ⟨"plan", "case", 4, "exec:bin", "local:exec", [], none, [], none⟩
  groups :=
    [⟨"a", ⟨1, .zero⟩, .none, [], [], .none⟩, ⟨"b", ⟨3, .zero⟩, .none, [], [], .none⟩]

theorem validate_oneAndThree : ∃ v, oneAndThree.validateForBuild = .ok v ∧ v.counts = [1, 3] :=
  ⟨_, rfl, rfl⟩

/-- Both groups are valid in another order, and one of them is not valid alone. -/
theorem picked_valid_oneAndThree : ∃ v, oneAndThree.validateForBuild = .ok v ∧
    (∃ p v', oneAndThree.pickGroups [1, 0] = .ok p ∧ p.validateForBuild = .ok v' ∧
      v'.builder = v.builder ∧ v'.counts = [3, 1]) ∧
    ∃ p, oneAndThree.pickGroups [0] = .ok p ∧
      p.validateForBuild = .error [.totalMismatch 4 1] := by
  obtain ⟨v, hv, hcounts⟩ := validate_oneAndThree
  have hcount : v.count 0 = 1 ∧ v.count 1 = 3 := by
    simp [ValidComposition.count, hcounts]
  obtain ⟨p, hp, -, -, hwhole⟩ := @picked_valid .build _ _ [1, 0] hv (by decide) (by decide)
    (by decide)
  obtain ⟨q, hq, -, -, hpart⟩ := @picked_valid .build _ _ [0] hv (by decide) (by decide)
    (by decide)
  rw [if_pos (by decide)] at hwhole
  rw [if_neg (by decide)] at hpart
  obtain ⟨v', hv', hbuilder, -, hcounts', -⟩ := hwhole
  have hone : totalOf ([0].map v.count) = 1 := by simp [totalOf, hcount]
  rw [hone] at hpart
  exact ⟨v, hv, ⟨p, v', hp, hv', hbuilder, by simp [hcounts', hcount]⟩, q, hq, hpart⟩

/-- **Not every pick from a valid composition is valid**: the total counts the groups that are
left out. -/
theorem not_every_pick_valid : ¬ ∀ (c : Composition) (v : ValidComposition) (indices : List Nat),
    c.validateForBuild = .ok v → indices ≠ [] → indices.Nodup →
      (∀ i ∈ indices, i < c.groups.length) →
        ∃ p v', c.pickGroups indices = .ok p ∧ p.validateForBuild = .ok v' := by
  intro h
  obtain ⟨v, hv, -⟩ := validate_oneAndThree
  obtain ⟨p, v', hp, hv'⟩ := h oneAndThree v [0] hv (by decide) (by decide) (by decide)
  have hpicked : oneAndThree.pickGroups [0] =
      .ok { oneAndThree with groups := oneAndThree.groups.take 1 } := rfl
  obtain rfl := Except.ok.inj (hpicked.symm.trans hp)
  have hmismatch : Composition.validateForBuild
      { oneAndThree with groups := oneAndThree.groups.take 1 } =
      .error [.totalMismatch 4 1] := rfl
  exact absurd (hmismatch.symm.trans hv') (by simp)

end Composition

end Conductor
