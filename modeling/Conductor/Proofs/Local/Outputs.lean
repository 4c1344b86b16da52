import Conductor.Engine.RunOrder
import Conductor.Local.Runner
import Conductor.Proofs.Composition.Acceptance
import Conductor.Proofs.Decimal.Written
import Conductor.Proofs.Files.Making
/-!
# Local backends — where instances leave their outputs

The local runner makes a directory for the outputs of every instance. Its path is joined of
the outputs of the home, the id of the run, the id of the group and the number of the
instance, and none of them is looked at. The number is a name, so instances of one group
never share a directory (`Directories.outputsPlace_eq`). The id of a group is any text: it
may lead out of the run, or be another spelling of the id of another group. So the instances
are kept apart, and in the directory of their run, exactly if each id stays below the place
that it is followed from, and no two of them lead to one place there
(`Composition.outputs_apart_iff`).
-/

namespace Conductor

open FileTree (Place)

/-! ## Instances -/

namespace ValidComposition

/-- The ids of the groups, with the numbers of their instances. -/
def sizedIds (v : ValidComposition) : List (String × Nat) :=
  (v.composition.groups.map Group.id).zip v.counts

/-- The instances of a composition: the ids of their groups, and their numbers there. -/
def instances (v : ValidComposition) : List (String × Nat) :=
  v.sizedIds.flatMap fun x => (List.range x.2).map (x.1, ·)

variable {c : Composition} {v : ValidComposition}

theorem length_counts (h : c.validate = .ok v) : v.counts.length = c.groups.length :=
  (Composition.validateFor_eq_ok_iff.1 h).2.2.1.clean.sizes.length_eq.symm

theorem ids_sizedIds (h : c.validate = .ok v) :
    v.sizedIds.map Prod.fst = c.groups.map Group.id := by
  obtain ⟨-, -, -, hcomposition⟩ := Composition.validateFor_eq_ok_iff.1 h
  rw [sizedIds, hcomposition, Composition.ids_complete, List.map_fst_zip]
  rw [List.length_map, length_counts h]

/-- Every group has an instance. -/
theorem sizedIds_pos (h : c.validate = .ok v) : ∀ x ∈ v.sizedIds, 0 < x.2 := by
  intro x hx
  have hcount : x.2 ∈ v.counts := (List.of_mem_zip hx).2
  obtain ⟨i, hi, hget⟩ := List.getElem_of_mem hcount
  have hsizes := (Composition.validateFor_eq_ok_iff.1 h).2.2.1.clean.sizes
  rw [← hget]
  exact (hsizes.get (length_counts h ▸ hi) hi).pos

end ValidComposition

/-- **The instances that a runner is handed** are those of the composition. -/
theorem RunOrder.slots_of_input {e : Engine} {o : RunOrder} {runId : String}
    {builds : List BuildResult} {input : RunInput} {c : Composition}
    (hvalid : c.validate = .ok o.composition) (h : o.input e runId builds = .ok input) :
    input.runId = runId ∧
      input.slots.map (fun s => (s.group.id, s.seq)) = o.composition.instances := by
  unfold RunOrder.input at h
  split at h
  · cases h
  cases h
  refine ⟨rfl, ?_⟩
  have hlength : o.composition.composition.groups.length = o.composition.counts.length := by
    rw [ValidComposition.length_counts hvalid, ← List.length_map (f := Group.id),
      (Composition.validateFor_eq_ok_iff.1 hvalid).2.2.2, Composition.ids_complete, List.length_map]
  have hsized : (o.composition.composition.groups.mapIdx (o.groupInput e builds)).map
      (fun x => (x.id, x.instances)) = o.composition.sizedIds := by
    refine List.ext_getElem (by simp [ValidComposition.sizedIds, hlength]) fun i hi hi' => ?_
    have hcount : i < o.composition.counts.length := by
      rw [← hlength]
      simpa using hi
    simp [ValidComposition.sizedIds, groupInput, ValidComposition.count, hcount]
  rw [ValidComposition.instances, ← hsized, List.flatMap_map, RunInput.slots, List.map_flatMap]
  simp [RunInput.slotsOf, Function.comp_def]

/-! ## Places -/

namespace Directories

variable {d : Directories} {runId group : String} {n : Nat} {sized : List (String × Nat)}

/-- The place of the outputs of a run. -/
def runPlace (d : Directories) (runId : String) : Place :=
  Path.leadsTo [] (Path.join d.outputs runId)

/-- The place of the outputs of an instance. -/
def outputsPlace (d : Directories) (runId group : String) (n : Nat) : Place :=
  Path.leadsTo [] (d.instanceOutputs runId group n)

/-- Instances have places of their own, all of them inside that of their run. -/
structure Apart (d : Directories) (runId : String) (instances : List (String × Nat)) : Prop where
  distinct : (instances.map fun s => d.outputsPlace runId s.1 s.2).Nodup
  inside : ∀ s ∈ instances, ∃ rest ≠ [], d.outputsPlace runId s.1 s.2 = d.runPlace runId ++ rest

/-- The number of an instance is a name. -/
theorem isName_number (n : Nat) : Path.IsName (toString n) := by
  have hall : Decimal.AllDigits (toString n).toList := by
    rw [Decimal.toList_toString]
    exact Decimal.allDigits_toDigits n
  have hpoint : '.' ∉ (toString n).toList := hall.not_mem (by decide)
  refine ⟨fun heq => ?_, hall.not_mem (by decide), fun heq => ?_, fun heq => ?_⟩
  · refine Nat.toDigits_ne_nil (n := n) (b := 10) ?_
    rw [← Decimal.toList_toString, heq]
    rfl
  · exact hpoint (by simp [heq])
  · exact hpoint (by simp [heq])

theorem number_injective : Function.Injective (toString : Nat → String) := by
  intro n m h
  exact Decimal.toDigits_injective (by rw [← Decimal.toList_toString, h, Decimal.toList_toString])

/-- **The number of an instance goes down** from where the id of its group leads. -/
theorem outputsPlace_eq : d.outputsPlace runId group n =
    Path.leadsTo (d.runPlace runId) group ++ [toString n] := by
  rw [outputsPlace, instanceOutputs, Path.leadsTo_join, Path.leadsTo_join,
    Path.leadsTo_of_isName (isName_number n)]
  rfl

theorem runPlace_eq (h : Path.IsName runId) :
    d.runPlace runId = Path.leadsTo [] d.outputs ++ [runId] := by
  rw [runPlace, Path.leadsTo_join, Path.leadsTo_of_isName h]

/-- Groups have no place in common exactly if their ids do not lead to the same. -/
theorem disjoint_places (f : String → Place) {x y : String × Nat} (hx : 0 < x.2) (hy : 0 < y.2) :
    List.Disjoint ((List.range x.2).map fun n => f x.1 ++ [toString n])
      ((List.range y.2).map fun n => f y.1 ++ [toString n]) ↔ f x.1 ≠ f y.1 := by
  simp only [List.disjoint_left, List.mem_map, List.mem_range]
  constructor
  · intro hdisjoint heq
    exact hdisjoint ⟨0, hx, rfl⟩ ⟨0, hy, by rw [heq]⟩
  · rintro hne place ⟨n, -, rfl⟩ ⟨m, -, heq⟩
    exact hne (List.append_inj_left' heq rfl).symm

/-- Places of instances are distinct exactly if those of the groups are. -/
theorem nodup_places (f : String → Place) (hpos : ∀ x ∈ sized, 0 < x.2) :
    (sized.flatMap fun x => (List.range x.2).map fun n => f x.1 ++ [toString n]).Nodup ↔
      (sized.map fun x => f x.1).Nodup := by
  have hnumbers : ∀ x ∈ sized, ((List.range x.2).map fun n => f x.1 ++ [toString n]).Nodup := by
    intro x _
    refine List.nodup_range.map fun n m heq => ?_
    exact number_injective (List.singleton_inj.1 (List.append_inj_right' heq rfl))
  rw [List.nodup_flatMap, and_iff_right hnumbers, List.Nodup, List.pairwise_map]
  exact List.Pairwise.iff_of_mem fun hx hy => disjoint_places f (hpos _ hx) (hpos _ hy)

/-- **Instances are apart** exactly if their groups lead to places of their own, none of them
outside of the place of the run. -/
theorem apart_iff (hpos : ∀ x ∈ sized, 0 < x.2) :
    d.Apart runId (sized.flatMap fun x => (List.range x.2).map (x.1, ·)) ↔
      (sized.map fun x => Path.leadsTo (d.runPlace runId) x.1).Nodup ∧
        ∀ x ∈ sized, d.runPlace runId <+: Path.leadsTo (d.runPlace runId) x.1 := by
  have hplaces : (sized.flatMap fun x => (List.range x.2).map (x.1, ·)).map
      (fun s => d.outputsPlace runId s.1 s.2) = sized.flatMap fun x =>
        (List.range x.2).map fun n => Path.leadsTo (d.runPlace runId) x.1 ++ [toString n] := by
    rw [List.map_flatMap]
    simp only [List.map_map, Function.comp_def, outputsPlace_eq]
  constructor
  · rintro ⟨hdistinct, hinside⟩
    rw [hplaces, nodup_places (Path.leadsTo (d.runPlace runId)) hpos] at hdistinct
    refine ⟨hdistinct, fun x hx => ?_⟩
    obtain ⟨rest, hrest, heq⟩ := hinside (x.1, 0)
      (List.mem_flatMap.2 ⟨x, hx, List.mem_map.2 ⟨0, List.mem_range.2 (hpos x hx), rfl⟩⟩)
    -- the number is the last of what is behind the place of the run
    rw [outputsPlace_eq, ← List.dropLast_append_getLast hrest, ← List.append_assoc] at heq
    exact ⟨_, (List.append_inj_left' heq rfl).symm⟩
  · rintro ⟨hdistinct, hwithin⟩
    refine ⟨?_, fun s hs => ?_⟩
    · rwa [hplaces, nodup_places (Path.leadsTo (d.runPlace runId)) hpos]
    · obtain ⟨x, hx, hs⟩ := List.mem_flatMap.1 hs
      obtain ⟨n, -, rfl⟩ := List.mem_map.1 hs
      obtain ⟨rest, hrest⟩ := hwithin x hx
      refine ⟨rest ++ [toString n], by simp, ?_⟩
      rw [outputsPlace_eq, ← hrest, List.append_assoc]

/-- The path of the outputs of an instance is not empty. -/
theorem instanceOutputs_ne_empty : d.instanceOutputs runId group n ≠ "" := by
  intro heq
  have hplace : d.outputsPlace runId group n = [] := by
    rw [outputsPlace, heq]
    simp [Path.leadsTo_root, Path.parts_empty]
  rw [outputsPlace_eq] at hplace
  simp at hplace

end Directories

/-- **An instance is started with a directory for its outputs.** Without links it is at the
place of its outputs, and the instance is told its path. -/
theorem Local.startInstance_directory {launcher : Local.Launcher} {d : Directories}
    {input : RunInput} {s : InstanceSlot} {t t' : FileTree} {p : Local.Process} (ht : t.LinkFree)
    (h : Local.startInstance launcher d input s t = (.ok p, t')) :
    ∃ (made : FileTree) (command : Local.Command), launcher made command = (.ok p, t') ∧
      command.env.get? "TEST_OUTPUTS_PATH" =
        some (d.instanceOutputs input.runId s.group.id s.seq) ∧
      ∃ entries, made.node? (d.outputsPlace input.runId s.group.id s.seq) =
        some (.directory entries) := by
  unfold Local.startInstance at h
  dsimp only at h
  split at h
  · cases h
  rename_i made hmade
  split at h
  · rename_i hlaunched
    cases h
    exact ⟨made, _, hlaunched, Table.get?_insert_self ..,
      FileTree.createAll_directory ht Directories.instanceOutputs_ne_empty hmade⟩
  · cases h

namespace Composition

variable {c : Composition} {v : ValidComposition}

/-- The ids of the groups stay below the place that they are followed from, and lead to
places of their own. -/
structure Separate (c : Composition) : Prop where
  below : ∀ g ∈ c.groups, Path.below? g.id ≠ none
  distinct : (c.groups.map fun g => Path.below? g.id).Nodup

/-- Groups are apart in every run exactly if they are separate. -/
theorem separate_iff {d : Directories} : (∀ runId, Path.IsName runId →
    (c.groups.map fun g => Path.leadsTo (d.runPlace runId) g.id).Nodup ∧
      ∀ g ∈ c.groups, d.runPlace runId <+: Path.leadsTo (d.runPlace runId) g.id) ↔
    c.Separate := by
  have hplace : ∀ {g : Group} (runId : String), Path.below? g.id ≠ none →
      ∃ q, Path.below? g.id = some q ∧
        Path.leadsTo (d.runPlace runId) g.id = d.runPlace runId ++ q := by
    intro g runId hbelow
    obtain ⟨q, hq⟩ := Option.ne_none_iff_exists'.1 hbelow
    exact ⟨q, hq, Path.leadsTo_of_below hq⟩
  have hdistinct : ∀ {runId : String}, (∀ g ∈ c.groups, Path.below? g.id ≠ none) →
      ((c.groups.map fun g => Path.leadsTo (d.runPlace runId) g.id).Nodup ↔
        (c.groups.map fun g => Path.below? g.id).Nodup) := by
    intro runId hbelow
    rw [List.Nodup, List.Nodup, List.pairwise_map, List.pairwise_map]
    refine List.Pairwise.iff_of_mem fun {g g'} hg hg' => not_congr ?_
    obtain ⟨q, hq, heq⟩ := hplace runId (hbelow g hg)
    obtain ⟨q', hq', heq'⟩ := hplace runId (hbelow g' hg')
    rw [hq, hq', heq, heq', List.append_cancel_left_eq, Option.some.injEq]
  constructor
  · intro h
    -- a run whose id is none of the parts of the ids
    obtain ⟨runId, hname, hnew⟩ :=
      Path.exists_isName_not_mem (c.groups.flatMap fun g => Path.parts g.id)
    obtain ⟨hnodup, hwithin⟩ := h runId hname
    have hbelow : ∀ g ∈ c.groups, Path.below? g.id ≠ none := by
      intro g hg hnone
      have hinside := hwithin g hg
      rw [Directories.runPlace_eq hname] at hinside
      exact Path.not_prefix_of_below hnone
        (fun hmem => hnew (List.mem_flatMap.2 ⟨g, hg, hmem⟩)) hinside
    exact ⟨hbelow, (hdistinct hbelow).1 hnodup⟩
  · rintro ⟨hbelow, hnodup⟩ runId -
    refine ⟨(hdistinct hbelow).2 hnodup, fun g hg => ?_⟩
    obtain ⟨q, -, heq⟩ := hplace runId (hbelow g hg)
    exact ⟨q, heq.symm⟩

/-- **When the outputs are apart.** A runner is handed the instances of the composition, and
starts each with a directory at the place of its outputs. In every run these are directories
of their own, inside that of the run, exactly if the ids of the groups stay below the place
that they are followed from and no two of them lead to one place: validation looks at
neither. -/
theorem outputs_apart_iff (h : c.validate = .ok v) (d : Directories) :
    (∀ (e : Engine) (o : RunOrder) (runId : String) (builds : List BuildResult)
      (input : RunInput), o.composition = v → o.input e runId builds = .ok input →
        input.runId = runId ∧ input.slots.map (fun s => (s.group.id, s.seq)) = v.instances) ∧
    (∀ (launcher : Local.Launcher) (input : RunInput) (s : InstanceSlot) (t t' : FileTree)
      (p : Local.Process), t.LinkFree → Local.startInstance launcher d input s t = (.ok p, t') →
        ∃ (made : FileTree) (command : Local.Command), launcher made command = (.ok p, t') ∧
          command.env.get? "TEST_OUTPUTS_PATH" =
            some (d.instanceOutputs input.runId s.group.id s.seq) ∧
          ∃ entries, made.node? (d.outputsPlace input.runId s.group.id s.seq) =
            some (.directory entries)) ∧
    ((∀ runId, Path.IsName runId → d.Apart runId v.instances) ↔ c.Separate) := by
  refine ⟨?_, fun launcher input s t t' p ht hstart => Local.startInstance_directory ht hstart, ?_⟩
  · rintro e o runId builds input rfl hinput
    exact RunOrder.slots_of_input h hinput
  · have hpos := ValidComposition.sizedIds_pos h
    have hids : ∀ f : String → Place, v.sizedIds.map (fun x => f x.1) =
        c.groups.map fun g => f g.id := by
      intro f
      have hmap := congrArg (List.map f) (ValidComposition.ids_sizedIds h)
      rwa [List.map_map, List.map_map] at hmap
    have hmem : ∀ P : String → Prop, (∀ x ∈ v.sizedIds, P x.1) ↔ ∀ g ∈ c.groups, P g.id := by
      intro P
      rw [← List.forall_mem_map (P := P) (f := Prod.fst), ValidComposition.ids_sizedIds h,
        List.forall_mem_map]
    rw [← separate_iff (d := d)]
    refine forall_congr' fun runId => imp_congr_right fun _ => ?_
    rw [ValidComposition.instances, Directories.apart_iff hpos, hids]
    exact and_congr_right fun _ =>
      hmem fun id => d.runPlace runId <+: Path.leadsTo (d.runPlace runId) id

namespace Spelling

def group (id : String) : Group := ⟨id, ⟨1, .zero⟩, .none, [], [], ⟨none, []⟩⟩

def composition (one other : String) : Composition where
  metadata := ⟨"", ""⟩
  settings := ⟨"p", "case", 0, "exec:bin", "local:exec", [], none, [], none⟩
  groups := [group one, group other]

end Spelling

/-- Groups with different names are apart. -/
theorem outputs_apart_of_names : ∃ v, (Spelling.composition "a" "b").validate = .ok v ∧
    ∀ runId, Path.IsName runId → (Directories.mk "/home").Apart runId v.instances := by
  have ha : Path.IsName "a" := ⟨by decide, by decide, by decide, by decide⟩
  have hb : Path.IsName "b" := ⟨by decide, by decide, by decide, by decide⟩
  obtain ⟨v, hvalid⟩ : ∃ v, (Spelling.composition "a" "b").validate = .ok v := ⟨_, rfl⟩
  refine ⟨v, hvalid, ((outputs_apart_iff hvalid ⟨"/home"⟩).2.2).2 ⟨?_, ?_⟩⟩
  · simp [Spelling.composition, Spelling.group, Path.below?_of_isName, ha, hb]
  · simp [Spelling.composition, Spelling.group, Path.below?_of_isName, ha, hb]

/-- **Outputs may be shared**: it is not so that in every run of a composition that is valid
the instances have places of their own inside that of the run. -/
theorem not_outputs_apart : ¬ ∀ (c : Composition) (v : ValidComposition) (d : Directories)
    (runId : String), c.validate = .ok v → Path.IsName runId → d.Apart runId v.instances := by
  intro h
  obtain ⟨v, hvalid⟩ : ∃ v, (Spelling.composition "a" "./a").validate = .ok v := ⟨_, rfl⟩
  have hname : Path.IsName "r" := ⟨by decide, by decide, by decide, by decide⟩
  have hdistinct := (h _ v ⟨"/home"⟩ "r" hvalid hname).distinct
  have hinstances : v.instances = [("a", 0), ("./a", 0)] := by
    cases hvalid
    rfl
  have hsame (place : FileTree.Place) : Path.leadsTo place "./a" = Path.leadsTo place "a" := by
    have hdotted : Path.parts "./a" = [".", "a"] := by
      rw [Path.parts_eq]
      decide
    have hplain : Path.parts "a" = ["a"] := Path.parts_of_no_slash (by decide) (by decide)
    rw [Path.leadsTo, Path.leadsTo, hdotted, hplain]
    rfl
  simp [hinstances, Directories.outputsPlace_eq, hsame] at hdistinct

end Composition

end Conductor
