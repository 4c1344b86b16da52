import Conductor.Proofs.Health.Checkup
/-!
# Health — the table of a report

Which entries an item has in a report depends on what its check and its fix answer, and
on whether fixes are asked for. `Trial.entryOfCheck` and `Trial.entryOfFix?` are the table of
this, and `HealthNeed.Needed` says which checks and fixes there are to be done at all.

An evaluation goes by the table (`Evaluation.Stands`): its entries are those of the items
in front of its place, and nothing that had to be done in front was canceled. Every answer
takes it to the next thing that is needed (`Stands.checked`, `Stands.fixed`).
-/

namespace Conductor

/-- An item with what its check answers, and what its fix does if it has one. -/
structure Trial where
  name : String
  check : CheckResult
  fix : Option FixResult

namespace Trial

/-- The item that is tried. -/
def item (t : Trial) : HealthItem := ⟨t.name, t.fix.isSome⟩

/-- The check finds a problem. -/
def Fails (t : Trial) : Prop := ∃ message, t.check = .ok ⟨false, message⟩

/-- The entry of the check. -/
def entryOfCheck (t : Trial) : HealthEntry :=
  match t.check with
  | .ok ⟨true, message⟩ => ⟨t.name, .ok, message⟩
  | .ok ⟨false, message⟩ => ⟨t.name, .failed, message⟩
  | .error e => ⟨t.name, .aborted, e.text⟩

/-- The entry of the fix, if there is one. -/
def entryOfFix? (fix : Bool) (t : Trial) : Option HealthEntry :=
  match t.fix, t.check, fix with
  | none, _, _ => none
  | some _, .ok ⟨true, _⟩, true => some ⟨t.name, .unnecessary, ""⟩
  | some _, .error _, true => some ⟨t.name, .omitted, "check aborted; fix not attempted"⟩
  | some _, .ok ⟨false, _⟩, false => some ⟨t.name, .omitted, "fix not requested"⟩
  | some (.ok message), .ok ⟨false, _⟩, true => some ⟨t.name, .ok, message⟩
  | some (.error e), .ok ⟨false, _⟩, true => some ⟨t.name, .failed, e.text⟩
  | some _, _, false => none

/-- The report of the table. -/
def report (fix : Bool) (trials : List Trial) : HealthReport :=
  ⟨trials.map entryOfCheck, trials.filterMap (entryOfFix? fix)⟩

end Trial

namespace HealthNeed

/-- What is to be done when nothing is canceled: every check, and the fixes of the items
that failed, if fixes are asked for. -/
def Needed (trials : List Trial) (fix : Bool) : HealthNeed → Prop
  | .check i => ∃ t, trials[i]? = some t
  | .fix i => fix = true ∧ ∃ t, trials[i]? = some t ∧ t.Fails ∧ t.fix.isSome

/-- What is called: nothing comes behind a need at which the call is found canceled. -/
def Called (trials : List Trial) (canceled : HealthNeed → Prop) (fix : Bool)
    (n : HealthNeed) : Prop :=
  n.Needed trials fix ∧ ∀ m : HealthNeed, m.Needed trials fix → canceled m → n.rank ≤ m.rank

end HealthNeed

/-! ## The order of needs -/

namespace HealthNeed

variable {trials : List Trial} {fix : Bool} {n m : HealthNeed}

/-- A need is known by its rank. -/
theorem rank_inj (h : n.rank = m.rank) : n = m := by
  cases n <;> cases m <;> simp only [rank] at h
  · congr 1
    omega
  · omega
  · omega
  · congr 1
    omega

/-- Nothing is done behind the last item. -/
theorem Needed.rank_lt (h : n.Needed trials fix) : n.rank < 2 * trials.length := by
  cases n with
  | check i =>
    obtain ⟨t, ht⟩ := h
    have hlt := (List.getElem?_eq_some_iff.1 ht).1
    simp only [rank]
    omega
  | fix i =>
    obtain ⟨-, t, ht, -⟩ := h
    have hlt := (List.getElem?_eq_some_iff.1 ht).1
    simp only [rank]
    omega

end HealthNeed

/-- The needs below a rank, in their order. -/
structure CalledTo (trials : List Trial) (fix : Bool) (bound : Nat) (needs : List HealthNeed) :
    Prop where
  rising : needs.Pairwise fun m n => m.rank < n.rank
  mem : ∀ n : HealthNeed, n ∈ needs ↔ n.Needed trials fix ∧ n.rank < bound

namespace CalledTo

variable {trials : List Trial} {fix : Bool} {needs : List HealthNeed} {n : HealthNeed}
  {bound bound' : Nat}

theorem nil : CalledTo trials fix 0 [] := ⟨.nil, by simp⟩

/-- What has the next rank is called next. -/
theorem concat (h : CalledTo trials fix n.rank needs) (hn : n.Needed trials fix) :
    CalledTo trials fix (n.rank + 1) (needs ++ [n]) := by
  refine ⟨List.pairwise_append.2 ⟨h.rising, List.pairwise_singleton _ _, ?_⟩, fun m => ?_⟩
  · intro m hm n' hn'
    rw [List.mem_singleton.1 hn']
    exact ((h.mem m).1 hm).2
  · rw [List.mem_append, List.mem_singleton, h.mem m]
    constructor
    · rintro (⟨hm, hlt⟩ | rfl)
      · exact ⟨hm, by omega⟩
      · exact ⟨hn, by omega⟩
    · rintro ⟨hm, hlt⟩
      rcases Nat.lt_succ_iff_lt_or_eq.1 hlt with hlt | heq
      · exact .inl ⟨hm, hlt⟩
      · exact .inr (HealthNeed.rank_inj heq)

/-- A bound may be raised where nothing is needed. -/
theorem raise (h : CalledTo trials fix bound needs)
    (hsame : ∀ n : HealthNeed, n.Needed trials fix → (n.rank < bound' ↔ n.rank < bound)) :
    CalledTo trials fix bound' needs := by
  refine ⟨h.rising, fun n => (h.mem n).trans (and_congr_right fun hn => ?_)⟩
  exact (hsame n hn).symm

end CalledTo

/-! ## One item -/

namespace Trial

variable {t : Trial} {fix : Bool}

theorem ofCheck_eq (t : Trial) : HealthEntry.ofCheck t.name t.check = t.entryOfCheck := by
  unfold entryOfCheck HealthEntry.ofCheck
  rcases t.check with e | ⟨ok, message⟩
  · rfl
  · cases ok <;> rfl

theorem status_eq_failed : HealthStatus.ofCheck t.check = .failed ↔ t.Fails := by
  unfold Fails
  rcases t.check with e | ⟨ok, message⟩
  · simp [HealthStatus.ofCheck]
  · cases ok <;> simp [HealthStatus.ofCheck]

/-- An item without a fixer has no entry of a fix. -/
theorem entryOfFix?_of_none (h : t.fix = none) : t.entryOfFix? fix = none := by
  simp [entryOfFix?, h]

/-- The entry of an item that is not fixed. -/
theorem entryOfFix?_unfixed (hfixer : t.fix.isSome = true) (h : ¬ (t.Fails ∧ fix = true)) :
    t.entryOfFix? fix = HealthEntry.unfixed? t.name fix (HealthStatus.ofCheck t.check) := by
  obtain ⟨r, hr⟩ := Option.isSome_iff_exists.1 hfixer
  unfold entryOfFix?
  rw [hr]
  rcases hcheck : t.check with e | ⟨ok, message⟩
  · cases fix <;> rfl
  · cases ok
    · cases fix
      · rfl
      · exact absurd ⟨⟨message, hcheck⟩, rfl⟩ h
    · cases fix <;> rfl

/-- The entry of an item that is fixed. -/
theorem entryOfFix?_fixed {r : FixResult} (hfails : t.Fails) (hr : t.fix = some r) :
    t.entryOfFix? true = some (.ofFix t.name r) := by
  obtain ⟨message, hcheck⟩ := hfails
  unfold entryOfFix?
  rw [hr, hcheck]
  cases r <;> rfl

end Trial

namespace Evaluation

variable {trials : List Trial} {canceled : HealthNeed → Prop} {ev : Evaluation} {t : Trial}
  {n : HealthNeed}

/-- **Where an evaluation of the trials stands.** -/
structure Stands (trials : List Trial) (canceled : HealthNeed → Prop) (ev : Evaluation) :
    Prop where
  at_items : ev.At (trials.map Trial.item)
  fails : ev.fixing = true → (HealthNeed.fix ev.place).Needed trials ev.fix
  checks : ev.report.checks =
    (trials.take (ev.place + ev.fixing.toNat)).map Trial.entryOfCheck
  fixes : ev.report.fixes = (trials.take ev.place).filterMap (Trial.entryOfFix? ev.fix)
  /-- Nothing in front was canceled. -/
  clear : ∀ n : HealthNeed, n.Needed trials ev.fix → n.rank < ev.due → ¬ canceled n

/-- An evaluation behind another: what it has called since is what was due. -/
structure Onward (trials : List Trial) (canceled : HealthNeed → Prop) (ev ev' : Evaluation) :
    Prop where
  stands : Stands trials canceled ev'
  fix : ev'.fix = ev.fix
  due : ∀ n : HealthNeed, n.Needed trials ev.fix → (n.rank < ev'.due ↔ n.rank < ev.due + 1)

/-- While items remain something is needed. -/
theorem exists_need (hne : ev.remaining ≠ []) : ∃ n, ev.need? = some n :=
  Option.ne_none_iff_exists'.1 (mt need_eq_none.1 hne)

theorem remaining_ne_nil (hn : ev.need? = some n) : ev.remaining ≠ [] := by
  intro hnil
  rw [need_eq_none.2 hnil] at hn
  cases hn

/-- While nothing is fixed, what is due is the check of the item. -/
theorem eq_check_of_due (hf : ev.fixing = false) (h : n.rank = ev.due) : n = .check ev.place := by
  refine HealthNeed.rank_inj ?_
  rw [h]
  simp [due, hf, HealthNeed.rank]

/-- And else it is the fix. -/
theorem eq_fix_of_due (hf : ev.fixing = true) (h : n.rank = ev.due) : n = .fix ev.place := by
  refine HealthNeed.rank_inj ?_
  rw [h]
  simp [due, hf, HealthNeed.rank]

theorem stands_start (fix : Bool) :
    Stands trials canceled (.start (trials.map Trial.item) fix) where
  at_items := at_start _ fix
  fails := by simp [start]
  checks := by simp [start, HealthReport.empty]
  fixes := by simp [start, HealthReport.empty]
  clear := by
    intro n _ hlt
    simp [due, start] at hlt

/-- The first of the items that remain is that of the trial at the place. -/
theorem Stands.remaining_eq (h : Stands trials canceled ev) (ht : trials[ev.place]? = some t) :
    ∃ rest, ev.remaining = t.item :: rest := by
  obtain ⟨hlt, heq⟩ := List.getElem?_eq_some_iff.1 ht
  refine ⟨(trials.drop (ev.place + 1)).map Trial.item, ?_⟩
  rw [h.at_items.remaining, ← List.map_drop, List.drop_eq_getElem_cons hlt, heq, List.map_cons]

/-- The place has a trial while items remain. -/
theorem Stands.trial (h : Stands trials canceled ev) (hne : ev.remaining ≠ []) :
    ∃ t, trials[ev.place]? = some t := by
  rw [h.at_items.remaining, ne_eq, List.drop_eq_nil_iff, List.length_map, Nat.not_le] at hne
  exact ⟨trials[ev.place], List.getElem?_eq_getElem hne⟩

/-- What is due is not canceled either. -/
theorem Stands.clear_due (h : Stands trials canceled ev)
    (hdue : ∀ n : HealthNeed, n.rank = ev.due → ¬ canceled n) :
    ∀ n : HealthNeed, n.Needed trials ev.fix → n.rank < ev.due + 1 → ¬ canceled n := by
  intro n hn hlt
  rcases Nat.lt_succ_iff_lt_or_eq.1 hlt with hlt | heq
  · exact h.clear n hn hlt
  · exact hdue n heq

/-- **An item is done** when its entries have been made. -/
theorem Stands.next (h : Stands trials canceled ev) (ht : trials[ev.place]? = some t)
    {checks : List HealthEntry}
    (hchecks : checks = (trials.take (ev.place + 1)).map Trial.entryOfCheck)
    (hclear : ∀ n : HealthNeed, n.Needed trials ev.fix → n.rank < 2 * ev.place + 2 → ¬ canceled n)
    (hdue : ∀ n : HealthNeed, n.Needed trials ev.fix →
      (n.rank < 2 * ev.place + 2 ↔ n.rank < ev.due + 1)) :
    Onward trials canceled ev
      ({ ev with report := ⟨checks, ev.report.fixes⟩ }.next (t.entryOfFix? ev.fix)) := by
  obtain ⟨rest, hrem⟩ := h.remaining_eq ht
  have hne : ev.remaining ≠ [] := by simp [hrem]
  have hadvance := advance_next h.at_items hne ⟨checks, ev.report.fixes⟩ (t.entryOfFix? ev.fix)
  have htake : trials.take (ev.place + 1) = trials.take ev.place ++ [t] := by
    rw [List.take_add_one, ht, Option.toList_some]
  have hnext : ({ ev with report := ⟨checks, ev.report.fixes⟩ }.next (t.entryOfFix? ev.fix)).due =
      2 * ev.place + 2 := by
    simp only [due, Evaluation.next, Bool.toNat_false]
    omega
  refine ⟨⟨hadvance.at_items, by simp [Evaluation.next], hchecks, ?_, ?_⟩, rfl, ?_⟩
  · show ev.report.fixes ++ (t.entryOfFix? ev.fix).toList =
      (trials.take (ev.place + 1)).filterMap (Trial.entryOfFix? ev.fix)
    rw [h.fixes, htake, List.filterMap_append]
    cases hentry : t.entryOfFix? ev.fix <;> simp [hentry]
  · intro n hn hlt
    rw [hnext] at hlt
    exact hclear n hn hlt
  · intro n hn
    rw [hnext]
    exact hdue n hn

/-- **What the check of an item makes of an evaluation**: the item is to be fixed, or done. -/
theorem checked_eq {rest : List HealthItem} (hrem : ev.remaining = t.item :: rest)
    (ht : trials[ev.place]? = some t) :
    ((HealthNeed.fix ev.place).Needed trials ev.fix ∧ ev.checked t.check =
      { ev with
        report := ⟨ev.report.checks ++ [t.entryOfCheck], ev.report.fixes⟩
        fixing := true }) ∨
    (¬ (HealthNeed.fix ev.place).Needed trials ev.fix ∧ ev.checked t.check =
      { ev with report := ⟨ev.report.checks ++ [t.entryOfCheck], ev.report.fixes⟩ }.next
        (t.entryOfFix? ev.fix)) := by
  have hneeded : (HealthNeed.fix ev.place).Needed trials ev.fix ↔
      ev.fix = true ∧ t.Fails ∧ t.fix.isSome = true := by
    simp [HealthNeed.Needed, ht]
  rw [hneeded]
  unfold checked
  rw [hrem]
  simp only [Trial.item, Trial.ofCheck_eq]
  split
  · rename_i hfixer
    split
    · rename_i hfix
      left
      exact ⟨⟨hfix.2, Trial.status_eq_failed.1 hfix.1, hfixer⟩, rfl⟩
    · rename_i hfix
      right
      rw [Trial.status_eq_failed] at hfix
      refine ⟨fun h => hfix ⟨h.2.1, h.1⟩, ?_⟩
      rw [Trial.entryOfFix?_unfixed hfixer hfix]
  · rename_i hfixer
    right
    refine ⟨fun h => hfixer h.2.2, ?_⟩
    rw [Trial.entryOfFix?_of_none (by simpa using hfixer)]

/-- **A check that answers** makes the entry of the table. -/
theorem Stands.checked (h : Stands trials canceled ev) (ht : trials[ev.place]? = some t)
    (hf : ev.fixing = false) (hcanceled : ¬ canceled (.check ev.place)) :
    Onward trials canceled ev (ev.checked t.check) := by
  obtain ⟨rest, hrem⟩ := h.remaining_eq ht
  have hdue : ev.due = 2 * ev.place := by simp [due, hf]
  have hchecks : ev.report.checks ++ [t.entryOfCheck] =
      (trials.take (ev.place + 1)).map Trial.entryOfCheck := by
    rw [h.checks, hf, List.take_add_one, ht]
    simp
  have hclear := h.clear_due fun n hn => eq_check_of_due hf hn ▸ hcanceled
  rcases checked_eq hrem ht with ⟨hfix, heq⟩ | ⟨hfix, heq⟩
  · -- the item is to be fixed, which is due next
    have hadvance := advance_checked h.at_items (by simp [hrem]) hf t.check
    have hnext : (ev.checked t.check).due = ev.due + 1 := by
      rw [heq, hdue]
      simp [due]
    refine ⟨⟨hadvance.at_items, ?_, ?_, ?_, ?_⟩, hadvance.fix, ?_⟩
    · intro _
      rw [heq]
      exact hfix
    · rw [heq]
      exact hchecks
    · rw [heq]
      exact h.fixes
    · intro n hn hlt
      rw [hadvance.fix] at hn
      rw [hnext] at hlt
      exact hclear n hn hlt
    · intro n _
      rw [hnext]
  · have hsame : ∀ n : HealthNeed, n.Needed trials ev.fix →
        (n.rank < 2 * ev.place + 2 ↔ n.rank < ev.due + 1) := by
      intro n hn
      have hne : n.rank ≠ 2 * ev.place + 1 := by
        intro hrank
        have hfixed : n = .fix ev.place := HealthNeed.rank_inj hrank
        exact hfix (hfixed ▸ hn)
      rw [hdue]
      omega
    rw [heq]
    exact h.next ht hchecks (fun n hn hlt => hclear n hn ((hsame n hn).1 hlt)) hsame

/-- **A fix that answers** makes the entry of the table. -/
theorem Stands.fixed {r : FixResult} (h : Stands trials canceled ev)
    (ht : trials[ev.place]? = some t) (hr : t.fix = some r) (hf : ev.fixing = true)
    (hcanceled : ¬ canceled (.fix ev.place)) : Onward trials canceled ev (ev.fixed r) := by
  obtain ⟨rest, hrem⟩ := h.remaining_eq ht
  obtain ⟨hfix, t', ht', hfails, -⟩ := h.fails hf
  rw [ht, Option.some.injEq] at ht'
  subst ht'
  have hdue : ev.due + 1 = 2 * ev.place + 2 := by simp [due, hf]
  have hentry : ev.fixed r = ev.next (t.entryOfFix? ev.fix) := by
    rw [hfix, Trial.entryOfFix?_fixed hfails hr]
    unfold Evaluation.fixed
    rw [hrem]
    rfl
  have hchecks : ev.report.checks = (trials.take (ev.place + 1)).map Trial.entryOfCheck := by
    rw [h.checks, hf, Bool.toNat_true]
  rw [hentry]
  have hclear := h.clear_due fun n hn => eq_fix_of_due hf hn ▸ hcanceled
  rw [hdue] at hclear
  exact h.next ht hchecks hclear fun n _ => by rw [hdue]

/-- An evaluation that has nothing more to do has the report of the table. -/
theorem Stands.report_eq (h : Stands trials canceled ev) (hnil : ev.remaining = []) :
    ev.report = Trial.report ev.fix trials := by
  rw [h.at_items.remaining, List.drop_eq_nil_iff, List.length_map] at hnil
  have hchecks : ev.report.checks = trials.map Trial.entryOfCheck := by
    rw [h.checks, List.take_of_length_le (Nat.le_add_right_of_le hnil)]
  have hfixes : ev.report.fixes = trials.filterMap (Trial.entryOfFix? ev.fix) := by
    rw [h.fixes, List.take_of_length_le hnil]
  rw [Trial.report, ← hchecks, ← hfixes]

/-- What an evaluation of the trials asks for is needed. -/
theorem Stands.needed (h : Stands trials canceled ev) (hn : ev.need? = some n) :
    n.Needed trials ev.fix := by
  have hne := remaining_ne_nil hn
  have hrank : n.rank = ev.due := rank_need hn
  cases hf : ev.fixing with
  | true =>
    rw [eq_fix_of_due hf hrank]
    exact h.fails hf
  | false =>
    rw [eq_check_of_due hf hrank]
    exact h.trial hne

/-- Behind the last item everything that is needed was called, and nothing was canceled. -/
theorem Stands.rank_lt (h : Stands trials canceled ev) (hnil : ev.remaining = [])
    (hn : n.Needed trials ev.fix) : n.rank < ev.due := by
  rw [h.at_items.remaining, List.drop_eq_nil_iff, List.length_map] at hnil
  have hlt := hn.rank_lt
  simp only [due]
  omega

end Evaluation

end Conductor
