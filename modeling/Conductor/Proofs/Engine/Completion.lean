import Conductor.Proofs.Engine.Cache
/-!
# Engine — builds that come to an end

When every build of a builder gives an artifact, a build without a run that could be
planned can be brought to its end, and then has a result for each unit
(`Call.Alone.exists_finished`). As long as nothing failed there is something to do
(`BuildStage.exists_move`), and what is done leaves less to do. What the engine then
remembers has an entry for each of the units.
-/

namespace Conductor

/-- Every build gives an artifact. -/
def Workshop.Productive (w : Workshop) : Prop := ∀ b q, ∃ out, w b q = .returned (.ok out)

namespace BuildStage

variable {w : Workshop} {l₀ l l' : Ledger} {s₀ s s' : BuildStage} {i n : Nat} {u : BuildUnit}
  {how : BuildEnd} {fx : List Effect}

/-- What holds of a stage in which nothing failed: what is joined is remembered. -/
structure Going (w : Workshop) (l₀ : Ledger) (s₀ : BuildStage) (l : Ledger) (s : BuildStage) :
    Prop where
  sound : s₀.StageSound w l₀ l false s
  clean : s.failure = none
  kept : ∀ slot ∈ s.slots, slot.progress.isJoined = true →
    l.cache.get? slot.unit.fingerprint ≠ none

namespace Going

/-- The stage goes on by itself. -/
theorem proceed (h : Going w l₀ s₀ l s) (step : s.proceed l = some (s', l', fx)) :
    Going w l₀ s₀ l' s' ∧ s'.stepsLeft < s.stepsLeft := by
  have hsound := h.sound.proceed step
  refine ⟨?_, stepsLeft_proceed step⟩
  rcases proceed_cases step with ⟨i, u, hit, hslot, hget, rfl, rfl, -⟩ |
    ⟨i, u, hslot, -, rfl, rfl, -⟩ | ⟨i, u, hslot, rfl, rfl, -⟩
  · have hkept : l.countHit.cache.get? u.fingerprint ≠ none := by simp [Ledger.countHit, hget]
    exact ⟨hsound, h.clean, forall_put_of hslot h.kept fun _ => hkept⟩
  · exact ⟨hsound, h.clean, forall_put_of hslot h.kept fun hjoined => by cases hjoined⟩
  · exact ⟨hsound, h.clean, forall_put_of hslot h.kept fun hjoined => by cases hjoined⟩

/-- A build that is under way can end as the workshop says. -/
theorem finish (h : Going w l₀ s₀ l s) (hslot : s.slots[i]? = some ⟨u, .building n⟩) :
    ∃ s' fx, s.finish i (w s.builder (s.requestOf u)) = some (s', fx) ∧ Going w l₀ s₀ l s' ∧
      s'.stepsLeft < s.stepsLeft := by
  obtain ⟨s', fx, hstep⟩ := exists_finish hslot (w s.builder (s.requestOf u))
  have hsound := h.sound.finish hstep fun u' p hslot' => by
    rw [hslot] at hslot'
    cases hslot'
    exact .inl rfl
  refine ⟨s', fx, hstep, ?_, stepsLeft_finish hstep⟩
  obtain ⟨u', n', told, hslot', rfl, -⟩ := finish_cases hstep
  exact ⟨hsound, h.clean, forall_put_of hslot' h.kept fun hjoined => by cases hjoined⟩

/-- A unit that has ended can be joined, and is remembered then. -/
theorem join (h : Going w l₀ s₀ l s) (hw : w.Productive) (launched : s.isLaunched = true)
    (hslot : s.slots[i]? = some ⟨u, .ended n how⟩) :
    ∃ s' l', s.join l i = some (s', l') ∧ Going w l₀ s₀ l' s' ∧ s'.stepsLeft < s.stepsLeft := by
  obtain ⟨out, rfl⟩ : ∃ out, how = .returned (.ok out) := by
    obtain ⟨-, hhow | ⟨-, hcanceled | hfailed⟩⟩ := h.sound.slots _ (List.mem_of_getElem? hslot)
    · exact hhow ▸ hw _ _
    · cases hcanceled
    · exact absurd h.clean hfailed
  have hstep : s.join l i = some (s.put i (.joined (some (s.resultOf u out))),
      l.enter (s.resultOf u out)) := by
    simp only [BuildStage.join, launched, hslot]
  refine ⟨_, _, hstep, ⟨h.sound.join hstep, h.clean, ?_⟩, stepsLeft_join hstep⟩
  refine forall_put_of hslot (fun slot hslot' hjoined => ?_) fun _ => ?_
  · exact Table.get?_insert_ne_none (h.kept slot hslot' hjoined)
  · simp [Ledger.enter, BuildStage.resultOf]

end Going

end BuildStage

namespace Call

variable {e : Engine} {w : Workshop} {l₀ l : Ledger} {s₀ s : BuildStage} {comp : Composition}
  {o : CallOptions} {c₀ : Call} {runId : String}

/-- **A stage in which nothing failed can be brought to its end**, and all units are
remembered then. -/
theorem Alone.finishes (hw : w.Productive)
    (h : Alone e w l₀ c₀ l (opened runId false false (.building none s)))
    (going : BuildStage.Going w l₀ s₀ l s) :
    ∃ l' bs, Alone e w l₀ c₀ l' (opened runId false false (.finished (.ok (.builds bs)))) ∧
      ∀ u ∈ s₀.units, l'.cache.get? u.fingerprint ≠ none := by
  -- by induction on the steps that are left: whatever move there is takes one of them away
  induction hn : s.stepsLeft using Nat.strong_induction_on generalizing s l with
  | _ n ih =>
    subst hn
    cases hproceed : s.proceed l with
    | some r =>
      obtain ⟨s', l', fx⟩ := r
      obtain ⟨hgoing, hlt⟩ := going.proceed hproceed
      have hstep : (opened runId false false (.building none s)).step e l .proceed =
          some (l', opened runId false false (.building none s'), fx) := by
        simp only [Call.step, Call.proceed, opened, hproceed]
        rfl
      exact ih _ hlt (.next (i := .proceed) h trivial hstep) hgoing rfl
    | none =>
      -- a build ends, a unit is joined, or the stage is over
      rcases BuildStage.exists_move hproceed with ⟨i, u, m, hslot⟩ | ⟨i, u, m, how, hslot⟩ | hover
      · obtain ⟨s', fx, hfinish, hgoing, hlt⟩ := going.finish hslot
        have hstep : (opened runId false false (.building none s)).step e l
            (.finish i (w s.builder (s.requestOf u))) =
            some (l, opened runId false false (.building none s'), fx) := by
          simp only [Call.step, opened, hfinish]
          rfl
        refine ih _ hlt (h.next ?_ hstep) hgoing rfl
        rintro o' s' u' p hphase hslot'
        cases hphase
        rw [hslot] at hslot'
        cases hslot'
        exact .inl rfl
      · obtain ⟨s', l', hjoin, hgoing, hlt⟩ :=
          going.join hw (BuildStage.isLaunched_of_proceed hproceed) hslot
        have hstep : (opened runId false false (.building none s)).step e l (.join i) =
            some (l', opened runId false false (.building none s'), []) := by
          simp only [Call.step, opened, hjoin]
          rfl
        exact ih _ hlt (.next (i := .join i) h trivial hstep) hgoing rfl
      · have hstep : ∃ bs, (opened runId false false (.building none s)).step e l .proceed =
            some (l, opened runId false false (.finished (.ok (.builds bs))), []) := by
          simp only [Call.step, Call.proceed, opened, hproceed, hover, if_true, concludeBuilds,
            BuildStage.outcome, going.clean]
          exact ⟨_, rfl⟩
        obtain ⟨bs, hstep⟩ := hstep
        refine ⟨l, bs, .next (i := .proceed) h trivial hstep, fun u hu => ?_⟩
        rw [← going.sound.same.units_eq] at hu
        obtain ⟨slot, hslot, rfl⟩ := List.mem_map.1 hu
        exact going.kept slot hslot (List.all_eq_true.1 hover slot hslot)

/-- **A build that is planned can be brought to its end** by a productive workshop, with
any ledger. -/
theorem exists_finished (hw : w.Productive) (l₀ : Ledger) (runId : String)
    (hplans : Plans e comp o s₀) :
    ∃ l bs c, Alone e w l₀ (buildOnly e runId false comp o) l c ∧
      c.phase = .finished (.ok (.builds bs)) ∧ c.canceled = false ∧
        ∀ u ∈ s₀.units, l.cache.get? u.fingerprint ≠ none := by
  obtain ⟨s, hphase, -, -, hnew, hc, hf⟩ := beginBuild_cases hplans
  cases hphase
  have going : BuildStage.Going w l₀ s₀ l₀ s₀ := by
    refine ⟨.start hnew hc hf, hf, fun slot hslot hjoined => ?_⟩
    rw [hnew slot hslot] at hjoined
    cases hjoined
  have begins : Alone e w l₀ (buildOnly e runId false comp o) l₀
      (opened runId false false (.building none s₀)) := by
    rw [buildOnly_of_ok hplans]
    exact .start
  obtain ⟨l, bs, h, hkept⟩ := begins.finishes hw going
  exact ⟨l, bs, _, h, rfl, rfl, hkept⟩

end Call

end Conductor
