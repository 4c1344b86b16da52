import Conductor.Cancellation.Context
import Conductor.Proofs.Cancellation.Tokens
import Mathlib.Data.List.Induction
/-!
# Cancellation — contexts

Contexts are derived from contexts and canceled, in any order
(`Contexts.Derives` says what each step makes of them). Behind any such steps a
context is canceled exactly when one was whose token lies above its own, also if
it was derived later (`Contexts.canceled_iff_above`). So a cancellation stays,
and reaches neither the parent of what is canceled nor another child of that
parent.
-/

namespace Conductor

namespace Contexts

variable {c : Contexts} {x y p : Context} {s : Step} {steps : List Step} {runId : String} {i : Nat}

theorem run_append (c : Contexts) (steps more : List Step) :
    c.run (steps ++ more) = (c.run steps).run more := List.foldl_append

/-! ## One step -/

/-- How contexts are derived from the one at a place: a child has a new token, right below
the one that it is derived from; a copy has the same token, and so has a context that
shares it. -/
def Derives (c d : Contexts) : Step → Prop
  | .child i => ∀ p, c.toList[i]? = some p → ∃ x, d.toList = c.toList ++ [x] ∧
      x.runId = p.runId ∧ d.tokens.IsChild x.token p.token ∧ ∀ y ∈ c.toList, y.token ≠ x.token
  | .copy i => ∀ p, c.toList[i]? = some p → d.toList = c.toList ++ [p]
  | .share i runId => ∀ p, c.toList[i]? = some p → d.toList = c.toList ++ [⟨runId, p.token⟩]
  | .cancel _ => d.toList = c.toList

/-- The tokens of all contexts are there, parents in front of their children. -/
structure Grown (c : Contexts) : Prop where
  ordered : c.tokens.Ordered
  held : ∀ x ∈ c.toList, x.token < c.tokens.size

theorem grown_root (runId : String) : (root runId).Grown where
  ordered := by
    rintro j p ⟨token, htoken, hparent⟩
    cases j with
    | zero =>
      cases htoken
      cases hparent
    | succ j => cases htoken
  held x hx := by
    cases List.mem_singleton.1 hx
    exact Nat.one_pos

/-- Contexts stay, in their order. -/
theorem prefix_step (c : Contexts) (s : Step) : c.toList <+: (c.step s).toList := by
  cases s with
  | child i =>
    simp only [step]
    split
    · exact List.prefix_append _ _
    · exact List.prefix_rfl
  | copy i => exact List.prefix_append _ _
  | share i runId => exact List.prefix_append _ _
  | cancel i =>
    simp only [step]
    split <;> exact List.prefix_rfl

namespace Grown

theorem held_at (h : c.Grown) (hx : c.toList[i]? = some x) : x.token < c.tokens.size :=
  h.held x (List.mem_of_getElem? hx)

theorem derives (h : c.Grown) (s : Step) : c.Derives (c.step s) s := by
  cases s with
  | child i =>
    intro p hp
    refine ⟨⟨p.runId, c.tokens.size⟩, by simp [step, hp], rfl, ?_, ?_⟩
    · simp only [step, hp]
      exact Tokens.isChild_child.2 (.inr ⟨rfl, rfl⟩)
    · exact fun y hy => Nat.ne_of_lt (h.held y hy)
  | copy i =>
    intro p hp
    simp [step, hp]
  | share i runId =>
    intro p hp
    simp [step, hp]
  | cancel i =>
    simp only [Derives, step]
    split <;> rfl

theorem step (h : c.Grown) (s : Step) : (c.step s).Grown := by
  have keeps : ∀ {new : List Context}, (∀ x ∈ new, ∃ p ∈ c.toList, x.token = p.token) →
      (⟨c.tokens, c.toList ++ new⟩ : Contexts).Grown := by
    intro new hnew
    refine ⟨h.ordered, fun x hx => ?_⟩
    rcases List.mem_append.1 hx with hx | hx
    · exact h.held x hx
    · obtain ⟨p, hp, htoken⟩ := hnew x hx
      exact htoken ▸ h.held p hp
  cases s with
  | child i =>
    simp only [Contexts.step]
    split
    · rename_i p hp
      refine ⟨h.ordered.child (h.held_at hp), fun x hx => ?_⟩
      rw [Tokens.size_child]
      rcases List.mem_append.1 hx with hx | hx
      · exact Nat.lt_succ_of_lt (h.held x hx)
      · cases List.mem_singleton.1 hx
        exact Nat.lt_succ_self _
    · exact h
  | copy i =>
    refine keeps fun x hx => ⟨x, List.mem_of_getElem? (Option.mem_toList.1 hx), rfl⟩
  | share i runId =>
    refine keeps fun x hx => ?_
    obtain ⟨p, hp, rfl⟩ := Option.map_eq_some_iff.1 (Option.mem_toList.1 hx)
    exact ⟨p, List.mem_of_getElem? hp, rfl⟩
  | cancel i =>
    simp only [Contexts.step]
    split
    · refine ⟨h.ordered.cancel, fun x hx => ?_⟩
      rw [Tokens.size_cancel]
      exact h.held x hx
    · exact h

/-- **What a step does to a context that is there**: a cancellation reaches it when the
context that is canceled has a token above its own, and nothing else changes it. -/
theorem isCanceled_step (h : c.Grown) (s : Step) (hx : x ∈ c.toList) :
    (c.step s).isCanceled x = true ↔ c.isCanceled x = true ∨
      ∃ i y, s = .cancel i ∧ c.toList[i]? = some y ∧ c.tokens.Above y.token x.token := by
  have hheld := h.held x hx
  cases s with
  | child i =>
    have hnot : ¬ ∃ j y, Step.child i = .cancel j ∧ c.toList[j]? = some y ∧
        c.tokens.Above y.token x.token := by
      rintro ⟨j, y, heq, -⟩
      cases heq
    rw [or_iff_left hnot]
    simp only [Contexts.step]
    split
    · rw [isCanceled, Tokens.isCanceled_child, if_neg (Nat.ne_of_lt hheld), isCanceled]
    · exact Iff.rfl
  | copy i => simp [Contexts.step, isCanceled]
  | share i runId => simp [Contexts.step, isCanceled]
  | cancel i =>
    simp only [Contexts.step]
    split
    · rename_i y hy
      rw [isCanceled, h.ordered.isCanceled_cancel hheld, isCanceled]
      refine or_congr Iff.rfl ⟨fun ha => ⟨i, y, rfl, hy, ha⟩, ?_⟩
      rintro ⟨j, z, heq, hz, ha⟩
      cases heq
      obtain rfl : y = z := Option.some.inj (hy.symm.trans hz)
      exact ha
    · rename_i hnone
      refine ⟨.inl, fun hor => hor.resolve_right ?_⟩
      rintro ⟨j, z, heq, hz, -⟩
      cases heq
      cases hnone.symm.trans hz

/-- What lies above the token of a context that is there does not change. -/
theorem above_step (h : c.Grown) (s : Step) (hx : x ∈ c.toList) (target : Nat) :
    (c.step s).tokens.Above target x.token ↔ c.tokens.Above target x.token := by
  cases s with
  | child i =>
    simp only [Contexts.step]
    split
    · exact h.ordered.above_child (h.held x hx)
    · exact Iff.rfl
  | copy i => exact Iff.rfl
  | share i runId => exact Iff.rfl
  | cancel i =>
    simp only [Contexts.step]
    split
    · exact Tokens.above_cancel
    · exact Iff.rfl

/-- So one that it does not lie above is not changed. -/
theorem isCanceled_cancel (h : c.Grown) (hx : c.toList[i]? = some x) (hy : y ∈ c.toList)
    (hnot : ¬ c.tokens.Above x.token y.token) :
    (c.step (.cancel i)).isCanceled y = c.isCanceled y := by
  rw [Bool.eq_iff_iff, h.isCanceled_step _ hy, or_iff_left]
  rintro ⟨j, z, heq, hz, ha⟩
  cases heq
  obtain rfl : x = z := Option.some.inj (hx.symm.trans hz)
  exact hnot ha

/-- The parent of the token of a context that is there stays. -/
theorem isChild_step (h : c.Grown) (s : Step) (hx : x ∈ c.toList) (parent : Nat) :
    (c.step s).tokens.IsChild x.token parent ↔ c.tokens.IsChild x.token parent := by
  cases s with
  | child i =>
    simp only [Contexts.step]
    split
    · rw [Tokens.isChild_child, or_iff_left]
      rintro ⟨heq, -⟩
      exact Nat.ne_of_lt (h.held x hx) heq
    · exact Iff.rfl
  | copy i => exact Iff.rfl
  | share i runId => exact Iff.rfl
  | cancel i =>
    simp only [Contexts.step]
    split
    · exact Tokens.isChild_cancel
    · exact Iff.rfl

/-- **What a new context begins as** is what the one is that it is derived from: it is
canceled if that is, and what lies above it has been there lies above that. -/
theorem new_step (h : c.Grown) {s : Step} (hx : x ∈ (c.step s).toList) (hnew : x ∉ c.toList) :
    ∃ p ∈ c.toList, (c.step s).isCanceled x = c.isCanceled p ∧
      ∀ y ∈ c.toList, (c.step s).tokens.Above y.token x.token ↔
        c.tokens.Above y.token p.token := by
  cases s with
  | child i =>
    simp only [Contexts.step] at hx ⊢
    split at hx
    · rename_i p hp
      rw [List.mem_append, or_iff_right hnew, List.mem_singleton] at hx
      subst hx
      have hheld := h.held_at hp
      refine ⟨p, List.mem_of_getElem? hp, ?_, fun y hy => ?_⟩
      · rw [isCanceled, Tokens.isCanceled_child, if_pos rfl, isCanceled]
      · exact (h.ordered.above_child_new hheld).trans (or_iff_right (Nat.ne_of_lt (h.held y hy)))
    · exact absurd hx hnew
  | copy i =>
    rw [Contexts.step, List.mem_append, or_iff_right hnew, Option.mem_toList] at hx
    exact absurd (List.mem_of_getElem? hx) hnew
  | share i runId =>
    rw [Contexts.step, List.mem_append, or_iff_right hnew, Option.mem_toList] at hx
    obtain ⟨p, hp, rfl⟩ := Option.map_eq_some_iff.1 hx
    exact ⟨p, List.mem_of_getElem? hp, rfl, fun y _ => Iff.rfl⟩
  | cancel i =>
    simp only [Contexts.step] at hx
    split at hx <;> exact absurd hx hnew

end Grown

/-! ## Any steps -/

/-- The contexts of a run behind some steps. -/
def after (runId : String) (steps : List Step) : Contexts := (root runId).run steps

theorem after_append (runId : String) (steps more : List Step) :
    after runId (steps ++ more) = (after runId steps).run more := run_append _ steps more

theorem after_concat (runId : String) (steps : List Step) (s : Step) :
    after runId (steps ++ [s]) = (after runId steps).step s := run_append _ steps [s]

/-- A context that was canceled at one of the steps. -/
def CanceledIn (runId : String) (steps : List Step) (y : Context) : Prop :=
  ∃ before later i, steps = before ++ .cancel i :: later ∧ (after runId before).toList[i]? = some y

theorem grown_after (runId : String) (steps : List Step) : (after runId steps).Grown := by
  induction steps using List.reverseRecOn with
  | nil => exact grown_root runId
  | append_singleton steps s ih =>
    rw [after_concat]
    exact ih.step s

theorem prefix_run (c : Contexts) (steps : List Step) : c.toList <+: (c.run steps).toList := by
  induction steps generalizing c with
  | nil => exact List.prefix_rfl
  | cons s steps ih => exact (prefix_step c s).trans (ih (c.step s))

/-- What is canceled stays canceled. -/
theorem Grown.isCanceled_run (h : c.Grown) (hx : x ∈ c.toList) (hcanceled : c.isCanceled x = true)
    (steps : List Step) : (c.run steps).isCanceled x = true := by
  induction steps generalizing c with
  | nil => exact hcanceled
  | cons s steps ih =>
    have hstep := (h.isCanceled_step s hx).2 (.inl hcanceled)
    exact ih (h.step s) ((prefix_step c s).subset hx) hstep

/-- A context is canceled at one of the steps, or at a last one. -/
theorem canceledIn_concat : CanceledIn runId (steps ++ [s]) y ↔ CanceledIn runId steps y ∨
    ∃ i, s = .cancel i ∧ (after runId steps).toList[i]? = some y := by
  constructor
  · rintro ⟨before, later, i, hsteps, hy⟩
    rcases List.eq_nil_or_concat later with rfl | ⟨later, last, rfl⟩
    · obtain ⟨rfl, hs⟩ := List.append_inj' hsteps rfl
      exact .inr ⟨i, (List.cons.inj hs).1, hy⟩
    · rw [List.concat_eq_append, ← List.cons_append, ← List.append_assoc] at hsteps
      obtain ⟨rfl, -⟩ := List.append_inj' hsteps rfl
      exact .inl ⟨before, later, i, rfl, hy⟩
  · rintro (⟨before, later, i, rfl, hy⟩ | ⟨i, rfl, hy⟩)
    · exact ⟨before, later ++ [s], i, by simp, hy⟩
    · exact ⟨steps, [], i, rfl, hy⟩

/-- What was canceled is one of the contexts. -/
theorem CanceledIn.mem (h : CanceledIn runId steps y) : y ∈ (after runId steps).toList := by
  obtain ⟨before, later, i, rfl, hy⟩ := h
  rw [after_append]
  exact (prefix_run _ _).subset (List.mem_of_getElem? hy)

/-- **A context is canceled exactly when one above it was.** -/
theorem canceled_iff_above (runId : String) (steps : List Step) :
    ∀ x ∈ (after runId steps).toList, (after runId steps).isCanceled x = true ↔
      ∃ y, CanceledIn runId steps y ∧ (after runId steps).tokens.Above y.token x.token := by
  induction steps using List.reverseRecOn with
  | nil =>
    intro x hx
    cases List.mem_singleton.1 hx
    constructor
    · intro h
      cases h
    · rintro ⟨y, ⟨before, later, i, hsteps, -⟩, -⟩
      simp at hsteps
  | append_singleton steps s ih =>
    intro x hx
    have hgrown := grown_after runId steps
    rw [after_concat] at hx ⊢
    simp only [canceledIn_concat]
    by_cases hold : x ∈ (after runId steps).toList
    · rw [hgrown.isCanceled_step s hold, ih x hold]
      simp only [hgrown.above_step s hold]
      constructor
      · rintro (⟨y, hy, ha⟩ | ⟨i, y, hs, hy, ha⟩)
        · exact ⟨y, .inl hy, ha⟩
        · exact ⟨y, .inr ⟨i, hs, hy⟩, ha⟩
      · rintro ⟨y, hy | ⟨i, hs, hy⟩, ha⟩
        · exact .inl ⟨y, hy, ha⟩
        · exact .inr ⟨i, y, hs, hy, ha⟩
    · -- what was canceled before counts for a new context as for the one it is derived from
      obtain ⟨p, hp, hcanceled, habove⟩ := hgrown.new_step hx hold
      rw [hcanceled, ih p hp]
      constructor
      · rintro ⟨y, hy, ha⟩
        exact ⟨y, .inl hy, (habove y hy.mem).2 ha⟩
      · rintro ⟨y, hy | ⟨i, rfl, -⟩, ha⟩
        · exact ⟨y, hy, (habove y hy.mem).1 ha⟩
        · exact absurd (hgrown.derives (.cancel i) ▸ hx) hold

/-! ## Cancellation flows down -/

/-- **Cancellation flows down, and only down.** Behind any steps from the context of a run
that begins, a context is canceled exactly when one was canceled, at some earlier step, whose
token is its own or lies above it, also where it was derived after that. So what is canceled
stays canceled whatever comes; and to cancel a context changes neither the one whose token is
the parent of its own, nor one with another child of that parent. What the parents are is
decided when contexts are derived, once for all. -/
theorem canceled_from_above (runId : String) (steps : List Step) :
    (∀ x ∈ (after runId steps).toList, (after runId steps).isCanceled x = true ↔
      ∃ y, CanceledIn runId steps y ∧ (after runId steps).tokens.Above y.token x.token) ∧
    (∀ x ∈ (after runId steps).toList, ∀ more, x ∈ (after runId (steps ++ more)).toList ∧
      ((after runId steps).isCanceled x = true →
        (after runId (steps ++ more)).isCanceled x = true)) ∧
    (∀ i x p, (after runId steps).toList[i]? = some x → p ∈ (after runId steps).toList →
      (after runId steps).tokens.IsChild x.token p.token →
      (after runId (steps ++ [.cancel i])).isCanceled p = (after runId steps).isCanceled p ∧
        ∀ z ∈ (after runId steps).toList, (after runId steps).tokens.IsChild z.token p.token →
          z.token ≠ x.token → (after runId (steps ++ [.cancel i])).isCanceled z =
            (after runId steps).isCanceled z) ∧
    (∀ s, (after runId steps).Derives (after runId (steps ++ [s])) s ∧
      ∀ x ∈ (after runId steps).toList, ∀ p,
        (after runId (steps ++ [s])).tokens.IsChild x.token p ↔
          (after runId steps).tokens.IsChild x.token p) := by
  have hgrown := grown_after runId steps
  refine ⟨canceled_iff_above runId steps, fun x hx more => ?_, fun i x p hx hp hchild => ?_,
    fun s => ⟨?_, fun x hx parent => ?_⟩⟩
  · rw [after_append]
    exact ⟨(prefix_run _ more).subset hx, fun hcanceled => hgrown.isCanceled_run hx hcanceled more⟩
  · rw [after_concat]
    refine ⟨hgrown.isCanceled_cancel hx hp (hgrown.ordered.not_above_parent hchild), ?_⟩
    intro z hz hsibling hne
    exact hgrown.isCanceled_cancel hx hz (hgrown.ordered.not_above_sibling hchild hsibling hne)
  · rw [after_concat]
    exact hgrown.derives s
  · rw [after_concat]
    exact hgrown.isChild_step s hx parent

/-! ## A child of a canceled child -/

namespace Orphan

/-- Of two children one is canceled, and then has a child of its own. -/
def history : List Step := [.child 0, .child 0, .cancel 1, .child 1]

def contexts : Contexts where
  tokens := ⟨[⟨none, false⟩, ⟨some 0, true⟩, ⟨some 0, false⟩, ⟨some 1, true⟩]⟩
  toList := [⟨"run", 0⟩, ⟨"run", 1⟩, ⟨"run", 2⟩, ⟨"run", 3⟩]

theorem after_history : after "run" history = contexts := by decide

end Orphan

/-- It is canceled for the one above it; and the other child can be canceled, where the
root stays as it is. -/
theorem canceled_from_above_orphan :
    (∃ y, CanceledIn "run" Orphan.history y ∧ Orphan.contexts.tokens.Above y.token 3) ∧
      (after "run" (Orphan.history ++ [.cancel 2])).isCanceled ⟨"run", 0⟩ = false := by
  have hmem : ⟨"run", 3⟩ ∈ (after "run" Orphan.history).toList := by
    rw [Orphan.after_history]
    exact List.mem_of_getElem? (i := 3) rfl
  obtain ⟨hiff, -, hdown, -⟩ := canceled_from_above "run" Orphan.history
  have hcanceled := (hiff ⟨"run", 3⟩ hmem).1
  have hroot := hdown 2 ⟨"run", 2⟩ ⟨"run", 0⟩
  rw [Orphan.after_history] at hcanceled hroot
  refine ⟨hcanceled rfl, ?_⟩
  exact (hroot rfl (List.mem_of_getElem? (i := 0) rfl) ⟨⟨some 0, false⟩, rfl, rfl⟩).1

end Contexts

end Conductor
