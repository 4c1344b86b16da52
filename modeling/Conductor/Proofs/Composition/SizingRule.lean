import Conductor.Composition.Decode
import Conductor.Proofs.Composition.WellFormed
import Conductor.Proofs.Json.Records
/-!
# Compositions — the rule of sizes

A group is to set exactly one size: a count beside a percentage of zero, or a percentage above
zero and up to one beside no count (`Sizing.Rule`). Validation does not hold every group to it.
A size with a count resolves as soon as its percentage is not positive, and besides zero that
lets a negative number and a not-a-number pass (`Sizing.Stray`).

A percentage that is let pass is not read: validation finds the same without it
(`Composition.violations_pruned`). So stray percentages are all that can be wrong with the
sizes of a validated composition (`Composition.sizing_rule`).
-/

namespace Conductor

namespace Binary64

variable {x : Binary64}

theorem isPositive_iff : x.isPositive ↔ ¬ x.isNaN ∧ 0 < x.signed := by
  have hnumber : zero.isNaN = false := by decide
  have hzero : zero.signed = 0 := by decide
  simp [isPositive, lt, hnumber, hzero]

theorem lt_zero_iff : x.lt zero ↔ ¬ x.isNaN ∧ x.signed < 0 := by
  have hnumber : zero.isNaN = false := by decide
  have hzero : zero.signed = 0 := by decide
  simp [lt, hnumber, hzero]

theorem signed_eq_zero : x.signed = 0 ↔ x.magnitudeBits = 0 := by
  unfold signed
  split <;> omega

/-- A zero, of either sign, is a number. -/
theorem isNaN_of_magnitudeBits_eq_zero (h : x.magnitudeBits = 0) : x.isNaN = false := by
  rw [isNaN, h]
  decide

/-- What is not positive is zero, negative or not a number. -/
theorem not_isPositive : ¬ x.isPositive ↔ x.magnitudeBits = 0 ∨ x.lt zero ∨ x.isNaN := by
  rw [isPositive_iff, lt_zero_iff, ← signed_eq_zero]
  cases hnumber : x.isNaN with
  | true => simp
  | false =>
    simp only [Bool.false_eq_true, not_false_eq_true, true_and, or_false]
    omega

end Binary64

/-! ## Sizes -/

namespace Sizing

variable {total n : Nat} {s : Sizing}

/-- Exactly one size is set, and it is one that a group can have. -/
inductive Rule (s : Sizing) : Prop
  | count (hcount : 0 < s.count) (hzero : s.percentage.magnitudeBits = 0)
  | share (hcount : s.count = 0) (hpositive : s.percentage.isPositive)
    (hunit : ¬ Binary64.unit.lt s.percentage)

/-- A percentage that is negative or not a number stands beside a count. -/
def Stray (s : Sizing) : Prop :=
  0 < s.count ∧ (s.percentage.lt .zero ∨ s.percentage.isNaN)

/-- The size without a percentage that its count leaves unread. -/
def pruned (s : Sizing) : Sizing :=
  if 0 < s.count ∧ ¬ s.percentage.isPositive then { s with percentage := .zero } else s

/-- A size that stands for a number obeys the rule, or is stray. -/
theorem Stands.rule_or_stray (h : s.Stands total n) : s.Rule ∨ s.Stray := by
  cases h with
  | count hcount hshare =>
    rcases Binary64.not_isPositive.1 hshare with hzero | hstray
    · exact .inl (.count hcount hzero)
    · exact .inr ⟨hcount, hstray⟩
  | share hcount hpositive hunit => exact .inl (.share hcount hpositive hunit)

/-- A stray size breaks the rule. -/
theorem Stray.not_rule (h : s.Stray) : ¬ s.Rule := by
  obtain ⟨hcount, hstray⟩ := h
  rintro (⟨-, hzero⟩ | ⟨hnone, -, -⟩)
  · rcases hstray with hnegative | hnan
    · exact absurd (Binary64.signed_eq_zero.2 hzero) (Binary64.lt_zero_iff.1 hnegative).2.ne
    · exact Bool.false_ne_true ((Binary64.isNaN_of_magnitudeBits_eq_zero hzero).symm.trans hnan)
  · omega

/-- Only a size that its count settles is pruned, and then it stands for the count. -/
theorem pruned_eq_self_or : s.pruned = s ∨
    s.Stands total s.count ∧ s.pruned.Stands total s.count := by
  unfold pruned
  split
  · rename_i hunread
    have hzero : ¬ Binary64.zero.isPositive := by decide
    exact .inr ⟨.count hunread.1 hunread.2, .count hunread.1 hzero⟩
  · exact .inl rfl

end Sizing

/-! ## Compositions -/

/-- The group with its size pruned. -/
def Group.pruned (g : Group) : Group := { g with sizing := g.sizing.pruned }

namespace GroupWalk

variable {total index : Nat} {w : GroupWalk} {g : Group} {gs : List Group}

/-- **A percentage that is pruned is not read** by the walk. -/
theorem step_pruned : w.step total index g.pruned = w.step total index g := by
  rcases @Sizing.pruned_eq_self_or total g.sizing with hself | ⟨hstands, hpruned⟩
  · rw [Group.pruned, hself]
  · -- both sizes are the count, so there is no violation that could tell the percentage
    have hresolve : g.pruned.sizing.resolve total = .ok g.sizing.count :=
      Sizing.resolve_eq_ok.2 hpruned
    simp only [step, hresolve, Sizing.resolve_eq_ok.2 hstands]
    rfl

theorem run_pruned : w.run total index (gs.map Group.pruned) = w.run total index gs := by
  induction gs generalizing w index with
  | nil => rfl
  | cons g gs ih => rw [List.map_cons, run, step_pruned, ih, run]

end GroupWalk

namespace Composition

variable {purpose : Purpose} {c : Composition} {v : ValidComposition}

/-- The composition with the sizes of its groups pruned. -/
def pruned (c : Composition) : Composition := { c with groups := c.groups.map Group.pruned }

/-- **Validation finds the same** in a pruned composition. -/
theorem violations_pruned : violations purpose c.pruned = violations purpose c := by
  have hsettings : settingsViolations purpose c.pruned = settingsViolations purpose c := by
    have hempty : c.pruned.groups.isEmpty = c.groups.isEmpty := List.isEmpty_map
    rw [settingsViolations, hempty]
    rfl
  have hwalk : walk purpose c.pruned = walk purpose c := by
    rw [walk, hsettings]
    exact GroupWalk.run_pruned
  rw [violations, hwalk]
  rfl

/-- The sizes of a validated composition stand for numbers. -/
theorem stands_of_validateFor (h : validateFor purpose c = .ok v) :
    ∀ g ∈ c.groups, ∃ n, g.sizing.Stands c.settings.total n := by
  obtain ⟨hwalk, -⟩ := List.append_eq_nil_iff.1 (validateFor_eq_ok h).1
  obtain ⟨ns, hclean⟩ := GroupWalk.clean_of_run hwalk
  intro g hg
  obtain ⟨i, hi, rfl⟩ := List.mem_iff_getElem.1 hg
  exact ⟨_, hclean.sizes.get hi (hclean.sizes.length_eq ▸ hi)⟩

/-- Completing a composition keeps the sizes of its groups. -/
theorem sizings_complete (counts : List Nat) :
    (complete c counts).groups.map Group.sizing = c.groups.map Group.sizing := by
  simp [complete, applyDefaults, withDefaults]

/-- **The rule of sizes.** Percentages that a count leaves unread make no difference to
validation. The groups of a composition that is validated, for a run or for a build, obey the
rule or have a stray percentage; so all of them obey it exactly when none is stray, and in the
composition validated the sizes are those given. -/
theorem sizing_rule (purpose : Purpose) (c : Composition) :
    violations purpose c.pruned = violations purpose c ∧
      ∀ v, validateFor purpose c = .ok v →
        v.composition.groups.map Group.sizing = c.groups.map Group.sizing ∧
          (∀ g ∈ c.groups, g.sizing.Rule ∨ g.sizing.Stray) ∧
          ((∀ g ∈ c.groups, g.sizing.Rule) ↔ ∀ g ∈ c.groups, ¬ g.sizing.Stray) := by
  refine ⟨violations_pruned, fun v h => ?_⟩
  have hsizes : ∀ g ∈ c.groups, g.sizing.Rule ∨ g.sizing.Stray := fun g hg => by
    obtain ⟨n, hn⟩ := stands_of_validateFor h g hg
    exact hn.rule_or_stray
  refine ⟨?_, hsizes, fun hrule g hg hstray => hstray.not_rule (hrule g hg), fun hnone g hg => ?_⟩
  · rw [(validateFor_eq_ok h).2, sizings_complete]
  · exact (hsizes g hg).resolve_right (hnone g hg)

/-! A document with a count of one beside a percentage of minus a half. -/

namespace Halved

/-- Minus a half. -/
def percentage : Binary64 := ⟨0xBFE0000000000000⟩

/-- The document. -/
def document : Json :=
  .object
    [("global",
      .object
        [("builder", .string "exec:bin"), ("case", .string "c"), ("plan", .string "p"),
          ("runner", .string "local:exec")]),
      ("groups",
        .array
          [.object
            [("id", .string "a"),
              ("instances",
                .object
                  [("count", .number (.int 1)), ("percentage", .number (.real percentage))])]])]

/-- The composition that it describes. -/
def composition : Composition where
  metadata := ⟨"", ""⟩
  settings := ⟨"p", "c", 0, "exec:bin", "local:exec", [], none, [], none⟩
  groups := [⟨"a", ⟨1, percentage⟩, .none, [], [], .none⟩]

theorem document_isKept : document.IsKept := by
  simp only [document, Json.IsKept, Json.ItemsKept, Json.MembersKept, Json.Number.IsKept,
    Table.Sorted]
  decide +kernel

theorem reread_percentage : Json.Number.reread (.real percentage) = .real percentage :=
  Json.Number.reread_eq_self rfl (by decide +kernel) (by decide +kernel) (by decide +kernel)

/-- The document is read as it is printed. -/
theorem reread_document : document.reread = document := by
  simp only [document, Json.reread, Json.itemsReread, Json.membersReread, reread_percentage]
  rfl

theorem ofJsonText_document :
    ofJsonText (Text.Utf8.ofString document.text) = .ok composition := by
  rw [ofJsonText, Json.decodeText_text document_isKept, reread_document]
  rfl

theorem validate_composition : ∃ v, composition.validate = .ok v := ⟨_, rfl⟩

theorem stray : ∀ g ∈ composition.groups, g.sizing.Stray := by
  simp only [composition, List.forall_mem_singleton, Sizing.Stray]
  decide

end Halved

/-- The one group of the document is stray, so that it does not obey the rule. -/
theorem sizing_rule_halved : ∃ v, Halved.composition.validate = .ok v ∧
    ¬ ∀ g ∈ Halved.composition.groups, g.sizing.Rule := by
  obtain ⟨v, hv⟩ := Halved.validate_composition
  obtain ⟨-, -, hall⟩ := (sizing_rule .run Halved.composition).2 v hv
  exact ⟨v, hv, fun hrule => hall.1 hrule _ List.mem_cons_self (Halved.stray _ List.mem_cons_self)⟩

/-- **Not every validated composition obeys the rule**, also of those read from texts. -/
theorem not_every_size_by_rule : ¬ ∀ (bs : List UInt8) (c : Composition) (v : ValidComposition),
    ofJsonText bs = .ok c → c.validate = .ok v → ∀ g ∈ c.groups, g.sizing.Rule := by
  intro h
  obtain ⟨v, hv⟩ := Halved.validate_composition
  have hrule := h _ _ v Halved.ofJsonText_document hv
  exact (Halved.stray _ List.mem_cons_self).not_rule (hrule _ List.mem_cons_self)

end Composition

end Conductor
