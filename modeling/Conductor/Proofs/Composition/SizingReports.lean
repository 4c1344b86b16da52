import Conductor.Proofs.Composition.WellFormed
/-!
# Compositions — the sizes that are reported

A size stands for a number, or `Fails` in one way (`Sizing.fault?_eq_some`), and a group whose
size fails has a violation of its own for it (`Group.sizingViolation?`). Validation keeps some
of these to itself. A group of size zero is passed over when a violation stands that blames a
size, and violations know groups by their ids only: a group whose size failed otherwise `Hides`
every later group of size zero with its id.

What the violations blame is an invariant of the walk (`GroupWalk.Blames`), from which it
follows what one step reports and then what a walk reports: the violations of the groups that
none before them hides (`GroupWalk.sizing_run`). So every size that fails is reported as often
as it fails exactly when no group hides another (`Composition.sizing_reports`).
-/

namespace Conductor

/-- The violation is in the size of a group. -/
def Violation.isSizing : Violation → Bool
  | .countAndPercentage _ | .percentageWithoutTotal _ | .percentageOutOfRange _ _
  | .zeroInstances _ => true
  | _ => false

namespace Violation

variable {id : String} {vs : List Violation}

/-- Only a violation in a size blames one. -/
theorem isSizing_of_blamesSizing {v : Violation} (h : v.blamesSizing id) : v.isSizing := by
  unfold blamesSizing at h
  split at h
  · rfl
  · rfl
  · rfl
  · cases h

theorem filter_isSizing_eq_nil (h : ∀ v ∈ vs, v.isSizing = false) :
    vs.filter (·.isSizing) = [] :=
  List.filter_eq_nil_iff.2 fun v hv => by simp [h v hv]

theorem any_blamesSizing_eq_false (h : ∀ v ∈ vs, v.isSizing = false) :
    vs.any (·.blamesSizing id) = false :=
  List.any_eq_false.2 fun v hv hblames =>
    Bool.false_ne_true ((h v hv).symm.trans (isSizing_of_blamesSizing hblames))

end Violation

/-! ## Sizes that fail -/

theorem Binary64.lt_trans {x y z : Binary64} (hxy : x.lt y) (hyz : y.lt z) : x.lt z := by
  simp only [lt, Bool.and_eq_true, Bool.not_eq_true', decide_eq_true_eq] at hxy hyz ⊢
  exact ⟨⟨hxy.1.1, hyz.1.2⟩, Int.lt_trans hxy.2 hyz.2⟩

/-- How a size fails to stand for a number of instances. -/
inductive Sizing.Fails (total : Nat) (s : Sizing) : SizingFault → Prop
  | both (hcount : 0 < s.count) (hpositive : s.percentage.isPositive) : Fails total s .both
  | outOfRange (hcount : s.count = 0) (hbeyond : Binary64.unit.lt s.percentage) :
    Fails total s .outOfRange
  | withoutTotal (hcount : s.count = 0) (hpositive : s.percentage.isPositive)
    (hunit : ¬ Binary64.unit.lt s.percentage) (htotal : total = 0) : Fails total s .withoutTotal
  | unset (hcount : s.count = 0) (hshare : ¬ s.percentage.isPositive) : Fails total s .zero
  | speck (hcount : s.count = 0) (hpositive : s.percentage.isPositive)
    (hunit : ¬ Binary64.unit.lt s.percentage) (htotal : 0 < total)
    (hround : (s.percentage.mulNat total).round = 0) : Fails total s .zero

namespace Sizing

variable {total : Nat} {s : Sizing} {f : SizingFault}

/-- **A size does not resolve as it fails**, and for no other reason. -/
theorem resolve_eq_error : s.resolve total = .error f ↔ s.Fails total f := by
  unfold resolve
  constructor
  · intro h
    split at h
    · rename_i hboth
      cases h
      exact .both hboth.1 hboth.2
    split at h
    · cases h
    rename_i hcount
    have hcount : s.count = 0 := Nat.eq_zero_of_not_pos hcount
    split at h
    · rename_i hbeyond
      cases h
      exact .outOfRange hcount hbeyond
    rename_i hunit
    split at h
    · rename_i hpositive
      split at h
      · rename_i htotal
        cases h
        exact .withoutTotal hcount hpositive hunit htotal
      rename_i htotal
      dsimp only at h
      split at h
      · cases h
      · rename_i hround
        cases h
        exact .speck hcount hpositive hunit (Nat.pos_of_ne_zero htotal)
          (Nat.eq_zero_of_not_pos hround)
    · rename_i hshare
      cases h
      exact .unset hcount hshare
  · intro h
    cases h with
    | both hcount hpositive => simp [hcount, hpositive]
    | outOfRange hcount hbeyond => simp [hcount, hbeyond]
    | withoutTotal hcount hpositive hunit htotal => simp [hcount, hpositive, hunit, htotal]
    | unset hcount hshare =>
      -- what is above one is above zero
      have hunit : ¬ Binary64.unit.lt s.percentage :=
        mt (Binary64.lt_trans (by decide : Binary64.zero.lt Binary64.unit)) hshare
      simp [hcount, hshare, hunit]
    | speck hcount hpositive hunit htotal hround =>
      simp [hcount, hpositive, hunit, Nat.ne_of_gt htotal, hround]

/-- The fault of a size, if it fails. -/
def fault? (total : Nat) (s : Sizing) : Option SizingFault :=
  match s.resolve total with
  | .ok _ => none
  | .error f => some f

theorem fault?_eq_some : s.fault? total = some f ↔ s.Fails total f := by
  rw [← resolve_eq_error, fault?]
  cases s.resolve total <;> simp

theorem fault?_eq_none : s.fault? total = none ↔ ∃ n, 0 < n ∧ s.Stands total n := by
  have hstands : (∃ n, 0 < n ∧ s.Stands total n) ↔ ∃ n, s.resolve total = .ok n :=
    ⟨fun ⟨n, _, hn⟩ => ⟨n, resolve_eq_ok.2 hn⟩,
      fun ⟨n, hn⟩ => ⟨n, (resolve_eq_ok.1 hn).pos, resolve_eq_ok.1 hn⟩⟩
  rw [hstands, fault?]
  cases s.resolve total <;> simp

end Sizing

/-! ## Groups -/

/-- The violation that a fault of a group is, whatever else was found. -/
def SizingFault.violation (g : Group) : SizingFault → Violation
  | .both => .countAndPercentage g.id
  | .outOfRange => .percentageOutOfRange g.id g.sizing.percentage
  | .withoutTotal => .percentageWithoutTotal g.id
  | .zero => .zeroInstances g.id

namespace SizingFault

variable {g : Group} {f : SizingFault}

theorem isSizing_violation : (f.violation g).isSizing := by
  cases f <;> rfl

/-- The violation for a fault blames its group, if the fault is not a size of zero. -/
theorem blamesSizing_violation {id : String} :
    (f.violation g).blamesSizing id ↔ g.id = id ∧ f ≠ .zero := by
  cases f <;> simp [violation, Violation.blamesSizing]

/-- Only a size of zero goes without its violation. -/
theorem violation?_eq {reported : List Violation} : f.violation? g reported =
    if f = .zero ∧ reported.any (·.blamesSizing g.id) then none else some (f.violation g) := by
  cases f <;> simp [violation?, violation]

end SizingFault

namespace Group

variable {total : Nat} {g g' : Group} {gs before : List Group}

/-- The violation in the size of a group, if it has one. -/
def sizingViolation? (total : Nat) (g : Group) : Option Violation :=
  (g.sizing.fault? total).map (·.violation g)

/-- The size of a group fails, and not by being zero. -/
def Blamed (total : Nat) (g : Group) : Prop :=
  ∃ f, f ≠ .zero ∧ g.sizing.Fails total f

/-- A group keeps the size of a later one from being reported. -/
def Hides (total : Nat) (g g' : Group) : Prop :=
  g.id = g'.id ∧ g.Blamed total ∧ g'.sizing.Fails total .zero

instance : Decidable (g.Blamed total) :=
  decidable_of_iff ((g.sizing.fault? total).any (· ≠ .zero)) <| by
    simp only [Option.any_eq_true, Sizing.fault?_eq_some, Blamed, decide_eq_true_eq, and_comm]

instance : Decidable (g.sizing.Fails total .zero) :=
  decidable_of_iff (g.sizing.fault? total = some .zero) Sizing.fault?_eq_some

instance : Decidable (g.Hides total g') :=
  inferInstanceAs (Decidable (_ ∧ _ ∧ _))

/-- The groups that none before them hides. -/
def visible (total : Nat) (before : List Group) : List Group → List Group
  | [] => []
  | g :: gs =>
    if ∃ b ∈ before, b.Hides total g then visible total (g :: before) gs
    else g :: visible total (g :: before) gs

theorem exists_hides : (∃ b ∈ before, b.Hides total g) ↔
    (∃ b ∈ before, b.id = g.id ∧ b.Blamed total) ∧ g.sizing.Fails total .zero := by
  simp only [Hides]
  constructor
  · rintro ⟨b, hb, hid, hblamed, hzero⟩
    exact ⟨⟨b, hb, hid, hblamed⟩, hzero⟩
  · rintro ⟨⟨b, hb, hid, hblamed⟩, hzero⟩
    exact ⟨b, hb, hid, hblamed, hzero⟩

/-- What is hidden is a violation. -/
theorem sizingViolation?_of_fails {f : SizingFault} (h : g.sizing.Fails total f) :
    g.sizingViolation? total = some (f.violation g) := by
  rw [sizingViolation?, Sizing.fault?_eq_some.2 h, Option.map_some]

/-- What is reported of the size of a group, behind other groups. -/
def report (total : Nat) (before : List Group) (g : Group) : List Violation :=
  if ∃ b ∈ before, b.Hides total g then [] else (g.sizingViolation? total).toList

theorem reports_visible : (visible total before (g :: gs)).filterMap (sizingViolation? total) =
    g.report total before ++
      (visible total (g :: before) gs).filterMap (sizingViolation? total) := by
  rw [visible, report]
  split
  · rfl
  · rw [List.filterMap_cons]
    cases g.sizingViolation? total <;> rfl

theorem isSizing_of_mem_report {v : Violation} (h : v ∈ g.report total before) : v.isSizing := by
  unfold report at h
  split at h
  · cases h
  · obtain ⟨f, -, rfl⟩ := Option.map_eq_some_iff.1 (Option.mem_toList.1 h)
    exact SizingFault.isSizing_violation

/-- A group is blamed in what is reported of it, and no other group is. -/
theorem blamesSizing_report {id : String} :
    (g.report total before).any (·.blamesSizing id) ↔ g.id = id ∧ g.Blamed total := by
  unfold report
  split
  · -- a hidden group is of size zero, which is not to be blamed for
    rename_i hhidden
    obtain ⟨-, hzero⟩ := exists_hides.1 hhidden
    refine iff_of_false (by simp) fun ⟨_, f, hf, hfails⟩ => hf ?_
    exact Option.some.inj
      ((Sizing.fault?_eq_some.2 hfails).symm.trans (Sizing.fault?_eq_some.2 hzero))
  · simp only [List.any_eq_true, Option.mem_toList, sizingViolation?, Option.map_eq_some_iff,
      Sizing.fault?_eq_some]
    constructor
    · rintro ⟨v, ⟨f, hfails, rfl⟩, hblames⟩
      obtain ⟨hid, hf⟩ := SizingFault.blamesSizing_violation.1 hblames
      exact ⟨hid, f, hf, hfails⟩
    · rintro ⟨hid, f, hf, hfails⟩
      exact ⟨_, ⟨f, hfails, rfl⟩, SizingFault.blamesSizing_violation.2 ⟨hid, hf⟩⟩

theorem visible_sublist : (visible total before gs).Sublist gs := by
  induction gs generalizing before with
  | nil => exact .slnil
  | cons g gs ih =>
    rw [visible]
    split
    · exact .cons g ih
    · exact .cons_cons g ih

/-- **Every violation is left to see exactly when no group is hidden.** -/
theorem length_visible_eq :
    ((visible total before gs).filterMap (sizingViolation? total)).length =
        (gs.filterMap (sizingViolation? total)).length ↔
      (∀ b ∈ before, ∀ g ∈ gs, ¬ b.Hides total g) ∧
        gs.Pairwise fun g g' => ¬ g.Hides total g' := by
  induction gs generalizing before with
  | nil => simp [visible]
  | cons g gs ih =>
    rw [visible]
    split
    · -- the violation of this group is missing, and no later one makes up for it
      rename_i hhidden
      obtain ⟨b, hb, hhides⟩ := hhidden
      have hle : ((visible total (g :: before) gs).filterMap (sizingViolation? total)).length ≤
          (gs.filterMap (sizingViolation? total)).length :=
        (visible_sublist.filterMap _).length_le
      rw [List.filterMap_cons_some (sizingViolation?_of_fails hhides.2.2), List.length_cons]
      exact iff_of_false (by omega) fun h => h.1 b hb g List.mem_cons_self hhides
    · rename_i hseen
      have hhead : ((g :: visible total (g :: before) gs).filterMap (sizingViolation? total)).length
          = ((g :: gs).filterMap (sizingViolation? total)).length ↔
          ((visible total (g :: before) gs).filterMap (sizingViolation? total)).length =
            (gs.filterMap (sizingViolation? total)).length := by
        simp only [List.filterMap_cons]
        cases g.sizingViolation? total <;> simp
      rw [hhead, ih, List.pairwise_cons]
      constructor
      · rintro ⟨hbefore, hrest⟩
        refine ⟨fun b hb => List.forall_mem_cons.2 ⟨fun h => hseen ⟨b, hb, h⟩, ?_⟩, ?_, hrest⟩
        · exact hbefore b (List.mem_cons_of_mem _ hb)
        · exact hbefore g List.mem_cons_self
      · rintro ⟨hbefore, hfirst, hrest⟩
        refine ⟨List.forall_mem_cons.2 ⟨hfirst, fun b hb => ?_⟩, hrest⟩
        exact (List.forall_mem_cons.1 (hbefore b hb)).2

end Group

/-! ## The walk -/

namespace GroupWalk

variable {total index : Nat} {w : GroupWalk} {g : Group} {gs before : List Group}

/-- The violations found blame the groups taken in whose sizes fail other than by being zero. -/
def Blames (total : Nat) (before : List Group) (w : GroupWalk) : Prop :=
  ∀ id, w.violations.any (·.blamesSizing id) ↔ ∃ b ∈ before, b.id = id ∧ b.Blamed total

/-- The violation in an id is not in a size. -/
theorem isSizing_idViolation? {v : Violation} {seen : List String}
    (h : v ∈ (g.idViolation? index seen).toList) : v.isSizing = false := by
  rcases of_mem_idViolation? h with rfl | rfl
  · rfl
  · rfl

/-- A step adds what is to be reported of its group. -/
theorem violations_step_of_blames (h : w.Blames total before) :
    (w.step total index g).violations =
      w.violations ++ (g.idViolation? index w.seen).toList ++ g.report total before := by
  -- the violation in the id stands before that in the size, but blames no size
  have hblames : (w.violations ++ (g.idViolation? index w.seen).toList).any
      (·.blamesSizing g.id) ↔ ∃ b ∈ before, b.id = g.id ∧ b.Blamed total := by
    rw [List.any_append, Violation.any_blamesSizing_eq_false fun v => isSizing_idViolation?,
      Bool.or_false]
    exact h g.id
  simp only [step, Group.report, Group.exists_hides, ← hblames, ← Sizing.resolve_eq_error,
    Group.sizingViolation?, Sizing.fault?]
  cases g.sizing.resolve total with
  | ok n => simp
  | error f =>
    simp only [SizingFault.violation?_eq, Option.map_some, Except.error.injEq, and_comm]
    split <;> rfl

/-- The sizes that a step reports. -/
theorem sizing_step (h : w.Blames total before) :
    (w.step total index g).violations.filter (·.isSizing) =
      w.violations.filter (·.isSizing) ++ g.report total before := by
  rw [violations_step_of_blames h, List.filter_append, List.filter_append,
    Violation.filter_isSizing_eq_nil fun v => isSizing_idViolation?, List.append_nil,
    List.filter_eq_self.2 fun v => Group.isSizing_of_mem_report]

/-- A step keeps account of what the violations blame. -/
theorem Blames.step (h : w.Blames total before) :
    (w.step total index g).Blames total (g :: before) := by
  intro id
  rw [violations_step_of_blames h, List.any_append, List.any_append,
    Violation.any_blamesSizing_eq_false fun v => isSizing_idViolation?, Bool.or_false,
    Bool.or_eq_true, Group.blamesSizing_report, h id]
  simp [or_comm]

/-- **A walk reports the sizes of the groups that none before them hides.** -/
theorem sizing_run (h : w.Blames total before) :
    (w.run total index gs).violations.filter (·.isSizing) =
      w.violations.filter (·.isSizing) ++
        (Group.visible total before gs).filterMap (Group.sizingViolation? total) := by
  -- the groups taken in grow with the walk, and the invariant with them
  induction gs generalizing w index before with
  | nil => simp [run, Group.visible]
  | cons g gs ih =>
    rw [run, ih h.step, sizing_step h, Group.reports_visible, List.append_assoc]

end GroupWalk

/-! ## Compositions -/

namespace Composition

variable {purpose : Purpose} {c : Composition} {vs : List Violation}

theorem isSizing_selectorViolation {α : Type} {component : Component}
    {x : Except SelectorError α} {v : Violation} (h : v ∈ selectorViolation component x) :
    v.isSizing = false := by
  cases x with
  | ok a => cases h
  | error e =>
    cases List.mem_singleton.1 h
    rfl

/-- No violation of the settings is in a size. -/
theorem isSizing_settingsViolations {v : Violation} (h : v ∈ settingsViolations purpose c) :
    v.isSizing = false := by
  simp only [settingsViolations, List.mem_append, List.mem_ite_nil_right, List.mem_singleton] at h
  rcases h with (((⟨-, rfl⟩ | ⟨-, rfl⟩) | hbuilder) | hrunner) | ⟨-, rfl⟩
  · rfl
  · rfl
  · exact isSizing_selectorViolation hbuilder
  · exact isSizing_selectorViolation hrunner
  · rfl

/-- No violation of the total is in a size. -/
theorem isSizing_totalViolations {v : Violation} {total : Nat} {w : GroupWalk}
    (h : v ∈ totalViolations total w) : v.isSizing = false := by
  rcases of_mem_totalViolations h with rfl | rfl
  · rfl
  · rfl

/-- The sizes among the violations of a composition. -/
theorem sizing_violations : (violations purpose c).filter (·.isSizing) =
    (Group.visible c.settings.total [] c.groups).filterMap
      (Group.sizingViolation? c.settings.total) := by
  have hstart : GroupWalk.Blames c.settings.total []
      ⟨[], settingsViolations purpose c, [], true⟩ := fun id => by
    simp [Violation.any_blamesSizing_eq_false fun v => isSizing_settingsViolations]
  rw [violations, List.filter_append, walk, GroupWalk.sizing_run hstart,
    Violation.filter_isSizing_eq_nil fun v => isSizing_settingsViolations,
    Violation.filter_isSizing_eq_nil fun v => isSizing_totalViolations, List.append_nil]
  rfl

/-- **The sizes that are reported.** A composition that fails validation is told the
violations in the sizes of the groups that no earlier group hides, in their order. So each
group whose size stands for no positive number has a violation of its own, and no other group
has one, exactly when no group hides a later one: when none of size zero follows a group with
its id whose size failed otherwise. -/
theorem sizing_reports (h : validateFor purpose c = .error vs) :
    (∀ g ∈ c.groups, g.sizingViolation? c.settings.total = none ↔
        ∃ n, 0 < n ∧ g.sizing.Stands c.settings.total n) ∧
      vs.filter (·.isSizing) =
        (Group.visible c.settings.total [] c.groups).filterMap
          (Group.sizingViolation? c.settings.total) ∧
      ((vs.filter (·.isSizing)).Perm
          (c.groups.filterMap (Group.sizingViolation? c.settings.total)) ↔
        c.groups.Pairwise fun g g' => ¬ g.Hides c.settings.total g') := by
  have hsizes := violations_of_error h ▸ sizing_violations
  refine ⟨fun g _ => Option.map_eq_none_iff.trans Sizing.fault?_eq_none, hsizes, ?_⟩
  rw [hsizes]
  have hlength := @Group.length_visible_eq c.settings.total c.groups []
  simp only [List.not_mem_nil, false_implies, implies_true, true_and] at hlength
  rw [← hlength]
  exact ⟨List.Perm.length_eq, fun heq =>
    .of_eq ((Group.visible_sublist.filterMap _).eq_of_length heq)⟩

/-- Two groups with one id: the first sets both sizes, the second none. -/
def namesakes : Composition where
  metadata := ⟨"", ""⟩
  settings := ⟨"p", "c", 0, "exec:bin", "local:exec", [], none, [], none⟩
  groups :=
    [⟨"a", ⟨1, ⟨0x3FE0000000000000⟩⟩, .none, [], [], .none⟩,
      ⟨"a", .unset, .none, [], [], .none⟩]

/-- The violations found in them. -/
def namesakeViolations : List Violation := [.countAndPercentage "a", .duplicateGroupId "a"]

theorem validate_namesakes : namesakes.validate = .error namesakeViolations := rfl

/-- The second of the namesakes is hidden, and one size is reported where two fail. -/
theorem sizing_reports_namesakes :
    namesakes.validate = .error namesakeViolations ∧
      (Group.visible 0 [] namesakes.groups).length = 1 ∧
      ¬ (namesakeViolations.filter (·.isSizing)).Perm
        (namesakes.groups.filterMap (Group.sizingViolation? 0)) := by
  obtain ⟨-, -, hall⟩ := sizing_reports validate_namesakes
  have hhides : ¬ namesakes.groups.Pairwise fun g g' => ¬ g.Hides 0 g' := by decide
  exact ⟨validate_namesakes, by decide, mt hall.1 hhides⟩

/-- **Not every size that fails is reported.** -/
theorem not_every_size_reported : ¬ ∀ (c : Composition) (vs : List Violation),
    c.validate = .error vs →
      (vs.filter (·.isSizing)).Perm
        (c.groups.filterMap (Group.sizingViolation? c.settings.total)) := by
  intro h
  have hperm := h namesakes namesakeViolations validate_namesakes
  -- the violations of two sizes against the one reported
  exact absurd hperm.length_eq (by decide)

end Composition

end Conductor
