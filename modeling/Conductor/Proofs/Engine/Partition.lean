import Conductor.Proofs.Engine.Plan
/-!
# Engine — how a plan divides the groups

A plan goes through the groups that are to be built and puts each of them into the unit
with its key, behind the groups that are there, or into a unit of its own behind the
others. So behind any groups the units are known exactly (`BuildUnit.Exact`): their keys
are those of the groups in the order in which they first appear, and each has the groups
with its key in their order. From this the units divide the groups
(`BuildUnit.divides_of_plan`): none is lost, none is in two units, and the order of the
composition is kept within each unit and among them.
-/

namespace Conductor

namespace BuildUnit

variable {e : Engine} {v : ValidComposition} {b : Builder}
variable {gs gs' : List Group} {g g' : Group} {u : BuildUnit} {units units' : List BuildUnit}
  {key : String}

/-- The keys of groups in the order in which they first appear. -/
def keysOf (gs : List Group) : List String := (gs.map Group.buildKey).eraseDups

/-- The ids of the groups with a key. -/
def idsWith (gs : List Group) (key : String) : List String :=
  (gs.filter fun g => g.buildKey = key).map Group.id

/-- The groups that do not have the key of a group. -/
def others (g : Group) (gs : List Group) : List Group :=
  gs.filter fun x => x.buildKey ≠ g.buildKey

/-- The units that groups come to. -/
structure Exact (gs : List Group) (units : List BuildUnit) : Prop where
  keys : units.map BuildUnit.key = keysOf gs
  ids : ∀ u ∈ units, u.groupIds = idsWith gs u.key

/-- **Lists of ids divide groups** by their keys. -/
structure Divides (gs : List Group) (lists : List (List String)) : Prop where
  /-- Every group is in one of the lists, once. -/
  whole : lists.flatten.Perm (gs.map Group.id)
  /-- The groups of a list are in their order, and there is at least one. -/
  ordered : ∀ ids ∈ lists, ids.Sublist (gs.map Group.id) ∧ ids ≠ []
  /-- The lists are in the order of their first groups. -/
  firsts : (lists.map List.head?).Sublist (gs.map fun g => some g.id)
  /-- Groups are in one list exactly when they have one key. -/
  together : ∀ g ∈ gs, ∀ g' ∈ gs,
    (∃ ids ∈ lists, g.id ∈ ids ∧ g'.id ∈ ids) ↔ g.buildKey = g'.buildKey

/-! ## Keys and their groups -/

theorem mem_keysOf : key ∈ keysOf gs ↔ ∃ g ∈ gs, g.buildKey = key := by
  rw [keysOf, List.mem_eraseDups, List.mem_map]

/-- A group whose key is there adds none. -/
theorem keysOf_append_of_mem (h : g.buildKey ∈ keysOf gs) : keysOf (gs ++ [g]) = keysOf gs := by
  have hmem : g.buildKey ∈ gs.map Group.buildKey := List.mem_eraseDups.1 h
  rw [keysOf, List.map_append, List.eraseDups_append, List.map_singleton]
  simp only [List.removeAll, List.filter_cons, List.elem_eq_mem, hmem, decide_true, Bool.not_true,
    Bool.false_eq_true, if_false, List.filter_nil, List.eraseDups_nil, List.append_nil]
  rfl

/-- A key that is new is the last. -/
theorem keysOf_append_of_not_mem (h : g.buildKey ∉ keysOf gs) :
    keysOf (gs ++ [g]) = keysOf gs ++ [g.buildKey] := by
  have hmem : g.buildKey ∉ gs.map Group.buildKey := fun hm => h (List.mem_eraseDups.2 hm)
  rw [keysOf, List.map_append, List.eraseDups_append, List.map_singleton]
  simp only [List.removeAll, List.filter_cons, List.elem_eq_mem, hmem, decide_false, Bool.not_false,
    if_true, List.filter_nil, List.eraseDups_cons, List.eraseDups_nil]
  rfl

/-- The first group has the first key, and the others are those of the groups without it. -/
theorem keysOf_cons : keysOf (g :: gs) = g.buildKey :: keysOf (others g gs) := by
  rw [keysOf, List.map_cons, List.eraseDups_cons, keysOf, others, List.filter_map]
  congr 3
  refine List.filter_congr fun x _ => ?_
  by_cases hx : x.buildKey = g.buildKey <;> simp [hx]

theorem idsWith_append :
    idsWith (gs ++ [g]) key = idsWith gs key ++ if g.buildKey = key then [g.id] else [] := by
  rw [idsWith, idsWith, List.filter_append, List.map_append, List.filter_singleton]
  split <;> simp_all

theorem idsWith_cons_self : idsWith (g :: gs) g.buildKey = g.id :: idsWith gs g.buildKey := by
  simp [idsWith]

theorem idsWith_sublist : (idsWith gs key).Sublist (gs.map Group.id) :=
  List.filter_sublist.map Group.id

theorem mem_idsWith {id : String} :
    id ∈ idsWith gs key ↔ ∃ g ∈ gs, g.buildKey = key ∧ g.id = id := by
  simp [idsWith, and_assoc]

/-- The groups without the first key are those that the other keys see. -/
theorem idsWith_others (h : key ≠ g.buildKey) :
    idsWith (g :: gs) key = idsWith (others g gs) key := by
  rw [idsWith, List.filter_cons_of_neg (by simpa using Ne.symm h), idsWith, others,
    List.filter_filter]
  congr 1
  refine List.filter_congr fun x _ => ?_
  by_cases hx : x.buildKey = key <;> simp [hx, h]

/-- So the lists of ids are that of the first group, and those of the groups without its key. -/
theorem lists_cons : (keysOf (g :: gs)).map (idsWith (g :: gs)) =
    (g.id :: idsWith gs g.buildKey) :: (keysOf (others g gs)).map (idsWith (others g gs)) := by
  rw [keysOf_cons, List.map_cons, idsWith_cons_self]
  congr 1
  refine List.map_congr_left fun key hkey => idsWith_others ?_
  obtain ⟨x, hx, rfl⟩ := mem_keysOf.1 hkey
  simpa using (List.mem_filter.1 hx).2

/-! ## What a plan does -/

/-- **The step lemma**: a group more in the units is a group more behind the groups. -/
theorem Exact.add (h : Exact gs units) (hadd : BuildUnit.add e v b units g = .ok units') :
    Exact (gs ++ [g]) units' := by
  have hany : units.any (fun u => u.key = g.buildKey) = true ↔ g.buildKey ∈ keysOf gs := by
    rw [← h.keys]
    simp
  simp only [BuildUnit.add] at hadd
  split at hadd
  · -- the group is behind those of the unit with its key
    rename_i hmem
    cases hadd
    refine ⟨?_, fun u hu => ?_⟩
    · rw [keysOf_append_of_mem (hany.1 hmem), ← h.keys, List.map_map]
      refine List.map_congr_left fun u _ => ?_
      dsimp only [Function.comp_apply]
      split <;> rfl
    · obtain ⟨u₀, hu₀, rfl⟩ := List.mem_map.1 hu
      split
      · rename_i hkey
        simp only [enlist, idsWith_append, h.ids u₀ hu₀, if_pos hkey.symm]
      · rename_i hkey
        rw [idsWith_append, if_neg (Ne.symm hkey), List.append_nil]
        exact h.ids u₀ hu₀
  · -- its unit is new, and no group before has the key
    rename_i hmem
    have hnew : g.buildKey ∉ keysOf gs := fun hk => hmem (hany.2 hk)
    cases hu : ofGroup e v b g with
    | error error => simp [hu, Except.map] at hadd
    | ok u =>
      rw [hu] at hadd
      cases hadd
      obtain ⟨hkey, hids⟩ := ofGroup_eq_ok hu
      refine ⟨?_, List.forall_mem_append.2 ⟨fun u' hu' => ?_, List.forall_mem_singleton.2 ?_⟩⟩
      · rw [List.map_append, h.keys, keysOf_append_of_not_mem hnew, List.map_singleton, hkey]
      · have hne : g.buildKey ≠ u'.key := by
          rintro heq
          exact hnew (heq ▸ h.keys ▸ List.mem_map_of_mem hu')
        rw [idsWith_append, if_neg hne, List.append_nil]
        exact h.ids u' hu'
      · have hnone : idsWith gs g.buildKey = [] := by
          refine List.eq_nil_iff_forall_not_mem.2 fun id hid => ?_
          obtain ⟨x, hx, hxkey, -⟩ := mem_idsWith.1 hid
          exact hnew (mem_keysOf.2 ⟨x, hx, hxkey⟩)
        rw [hids, hkey, idsWith_append, hnone, if_pos rfl]
        rfl

/-- So it is with all groups. -/
theorem Exact.addAll (h : Exact gs units) (hadd : BuildUnit.addAll e v b units gs' = .ok units') :
    Exact (gs ++ gs') units' := by
  induction gs' generalizing gs units with
  | nil =>
    cases hadd
    rwa [List.append_nil]
  | cons g gs' ih =>
    simp only [BuildUnit.addAll] at hadd
    split at hadd
    · rename_i hstep
      simpa using ih (h.add hstep) hadd
    · cases hadd

/-- The units of a plan are those that its groups come to. -/
theorem exact_of_plan (h : e.planBuilds v b = .ok units) : Exact (groupsToBuild v) units := by
  have hnil : Exact [] [] := ⟨rfl, by simp⟩
  simpa using hnil.addAll (planBuilds_eq_ok h).2

theorem Exact.lists (h : Exact gs units) :
    units.map BuildUnit.groupIds = (keysOf gs).map (idsWith gs) := by
  rw [← h.keys, List.map_map]
  exact List.map_congr_left h.ids

/-! ## The lists divide the groups -/

/-- The groups without the key of the first are fewer. -/
theorem length_others_lt : (others g gs).length < (g :: gs).length :=
  Nat.lt_succ_of_le (List.length_filter_le _ _)

/-- No group is lost, and none is in two lists. -/
theorem flatten_lists_perm : (gs : List Group) →
    ((keysOf gs).map (idsWith gs)).flatten.Perm (gs.map Group.id)
  | [] => .rfl
  | g :: gs => by
    -- the first list takes its groups from everywhere, so the rest is not the tail
    have hrest := flatten_lists_perm (others g gs)
    have hsplit : (idsWith gs g.buildKey ++ (others g gs).map Group.id).Perm
        (gs.map Group.id) := by
      rw [idsWith, ← List.map_append]
      refine List.Perm.map _ ?_
      simpa [others] using
        List.filter_append_perm (fun x : Group => decide (x.buildKey = g.buildKey)) gs
    rw [lists_cons, List.flatten_cons, List.cons_append]
    exact ((hrest.append_left _).trans hsplit).cons _
termination_by gs => gs.length
decreasing_by exact length_others_lt

/-- The lists are in the order of their first groups. -/
theorem firsts_sublist : (gs : List Group) →
    (((keysOf gs).map (idsWith gs)).map List.head?).Sublist (gs.map fun g => some g.id)
  | [] => .slnil
  | g :: gs => by
    rw [lists_cons, List.map_cons, List.map_cons]
    exact ((firsts_sublist (others g gs)).trans (List.filter_sublist.map _)).cons_cons _
termination_by gs => gs.length
decreasing_by exact length_others_lt

/-- The groups of a validated composition that are to be built are told by their ids. -/
theorem ids_groupsToBuild_nodup {purpose : Purpose} {c : Composition}
    (h : Composition.validateFor purpose c = .ok v) : ((groupsToBuild v).map Group.id).Nodup :=
  (Composition.ids_nodup h).sublist (List.filter_sublist.map Group.id)

/-- **The units of a plan divide the groups that are to be built.** -/
theorem divides_of_plan (h : e.planBuilds v b = .ok units)
    (distinct : ((groupsToBuild v).map Group.id).Nodup) :
    Divides (groupsToBuild v) (units.map BuildUnit.groupIds) := by
  rw [(exact_of_plan h).lists]
  refine ⟨flatten_lists_perm _, fun ids hids => ?_, firsts_sublist _, fun g hg g' hg' => ⟨?_, ?_⟩⟩
  · obtain ⟨key, hkey, rfl⟩ := List.mem_map.1 hids
    obtain ⟨g, hg, hgkey⟩ := mem_keysOf.1 hkey
    exact ⟨idsWith_sublist, List.ne_nil_of_mem (mem_idsWith.2 ⟨g, hg, hgkey, rfl⟩)⟩
  · rintro ⟨ids, hids, hid, hid'⟩
    obtain ⟨key, -, rfl⟩ := List.mem_map.1 hids
    obtain ⟨x, hx, hxkey, hxid⟩ := mem_idsWith.1 hid
    obtain ⟨x', hx', hxkey', hxid'⟩ := mem_idsWith.1 hid'
    -- an id is that of one group only
    obtain rfl : x = g := List.inj_on_of_nodup_map distinct hx hg hxid
    obtain rfl : x' = g' := List.inj_on_of_nodup_map distinct hx' hg' hxid'
    rw [hxkey, hxkey']
  · intro hkey
    exact ⟨idsWith (groupsToBuild v) g.buildKey,
      List.mem_map_of_mem (mem_keysOf.2 ⟨g, hg, rfl⟩), mem_idsWith.2 ⟨g, hg, rfl, rfl⟩,
      mem_idsWith.2 ⟨g', hg', hkey.symm, rfl⟩⟩

end BuildUnit

end Conductor
