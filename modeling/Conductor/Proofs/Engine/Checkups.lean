import Conductor.Proofs.Engine.Cleanup
import Conductor.Proofs.Engine.Examinations
import Conductor.Proofs.Health.Reports
/-!
# Engine — a checkup that is sought

`Session.Sought` is what holds of the checkup of a runner as long as the first call that has
asked for it waits: all its answers go by the trials, it has answered nobody, and no other
checkup knows of the call. What other calls do does not matter to it.
-/

namespace Conductor

namespace Session

variable {e : Engine} {s t : Session} {more : List Deed} {k n : Nat} {runner other : Selector}
  {trials : List Trial} {fix : Bool} {turns : Nat} {ch ch' : Checkup}

/-- Where a checkup is put in its place, those of other runners are listed as before. -/
theorem mem_putCheckup_of_ne {x : Selector × Checkup}
    (hx : x ∈ (s.putCheckup runner ch').checkups) (hne : x.1 ≠ runner) : x ∈ s.checkups := by
  obtain ⟨y, hy, rfl⟩ := List.mem_map.1 hx
  by_cases hfound : y.1 = runner
  · rw [if_pos hfound] at hne
    exact absurd rfl hne
  · rw [if_neg hfound]
    exact hy

/-- **The health of a runner is sought** by a call that was the first to ask for it: the
checkup has gone by the trials for so many turns, it has not answered the call, and no other
checkup knows of it. -/
structure Sought (trials : List Trial) (k : Nat) (fix : Bool) (runner : Selector) (s : Session)
    (turns : Nat) : Prop where
  tried : ∃ as ch rs, s.checkup? runner = some ch ∧
    Checkup.Tried trials (fun _ => False) (.ofItems (trials.map Trial.item)) as ch rs ∧
      (Checkup.asks as).head? = some (k, fix) ∧ (∀ r, .answer k r ∉ rs) ∧
        as.length = turns + (Checkup.asks as).length
  elsewhere : ∀ x ∈ s.checkups, x.1 ≠ runner → k ∉ x.2.seekers

/-- The checkup that is found for another runner does not know of the call. -/
theorem Sought.not_seeks (h : Sought trials k fix runner s turns) (hother : other ≠ runner)
    (hfound : s.checkup? other = some ch) : k ∉ ch.seekers := by
  obtain ⟨x, hx, rfl⟩ := Option.map_eq_some_iff.1 hfound
  have hname : x.1 = other := by simpa using List.find?_some hx
  exact h.elsewhere x (List.mem_of_find?_eq_some hx) (hname ▸ hother)

/-- Only the checkups matter. -/
theorem Sought.congr (h : Sought trials k fix runner s turns) (hsame : t.checkups = s.checkups) :
    Sought trials k fix runner t turns := by
  refine ⟨?_, hsame ▸ h.elsewhere⟩
  have hfind : t.checkup? runner = s.checkup? runner := by rw [checkup?, checkup?, hsame]
  rw [hfind]
  exact h.tried

/-- The checkup of another runner does not matter, as long as it does not seek for the call. -/
theorem Sought.put_other (h : Sought trials k fix runner s turns) (hother : other ≠ runner)
    (hseek : k ∉ ch'.seekers) : Sought trials k fix runner (s.putCheckup other ch') turns := by
  refine ⟨?_, fun x hx hne => ?_⟩
  · rw [checkup?_putCheckup_other hother]
    exact h.tried
  · obtain ⟨y, hy, rfl⟩ := List.mem_map.1 hx
    by_cases hfound : y.1 = other
    · rw [if_pos hfound]
      exact hseek
    · rw [if_neg hfound] at hne ⊢
      exact h.elsewhere y hy hne

/-- Other calls may ask for the health of any runner. -/
theorem Sought.ask (h : Sought trials k fix runner s turns) (hn : n ≠ k) (other : Selector)
    (fix' : Bool) : Sought trials k fix runner (s.ask n other fix') turns := by
  unfold Session.ask
  split
  swap
  · exact h
  rename_i ch' replies hact
  obtain ⟨ch, hfound, hact⟩ := Option.bind_eq_some_iff.1 hact
  by_cases hother : other = runner
  · subst hother
    obtain ⟨as, ch₀, rs, hch, htried, hfirst, hnone, hlength⟩ := h.tried
    rw [hfound, Option.some.injEq] at hch
    subst hch
    have hasked := htried.concat (a := .ask n fix') hact trivial trivial
    cases hact
    refine ⟨⟨_, _, _, checkup?_putCheckup hfound, hasked, Checkup.head?_asks_concat hfirst _,
      by simpa using hnone, ?_⟩, fun x hx hne => ?_⟩
    · have hasks : Checkup.asks (as ++ [.ask n fix']) = Checkup.asks as ++ [(n, fix')] := by
        simp [Checkup.asks, Checkup.Action.asks?]
      rw [hasks, List.length_append, List.length_append, List.length_singleton,
        List.length_singleton]
      omega
    · exact h.elsewhere x (mem_putCheckup_of_ne hx hne) hne
  · refine h.put_other hother fun hseek => ?_
    rcases (Checkup.acts_of_act hact).seekers k hseek with hseek | ⟨fix'', heq⟩
    · exact h.not_seeks hother hfound hseek
    · cases heq
      exact hn rfl

/-- What another call does is heeded, and what this one does without asking for health. -/
theorem Sought.accept {fx : List Effect} (h : Sought trials k fix runner s turns)
    (hfx : n ≠ k ∨ ∀ x ∈ fx, x.IsQuiet) (c : Call) :
    Sought trials k fix runner (s.accept n c fx).1 turns := by
  have hheed : ∀ fx : List Effect, (n ≠ k ∨ ∀ x ∈ fx, x.IsQuiet) → ∀ s,
      Sought trials k fix runner s turns →
        Sought trials k fix runner (fx.foldl (heed n) s) turns := by
    intro fx
    induction fx with
    | nil => exact fun _ s h => h
    | cons x fx ih =>
      intro hfx s h
      refine ih (hfx.imp_right fun hq y hy => hq y (List.mem_cons_of_mem x hy)) _ ?_
      cases x with
      | examine other fix' =>
        refine h.ask (hfx.resolve_right fun hq => ?_) other fix'
        cases (hq _ (List.mem_cons_self ..)).2.1
      | _ => exact h
  exact hheed fx hfx _ (h.congr rfl)

end Session

end Conductor
