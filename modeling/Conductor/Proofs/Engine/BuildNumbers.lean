import Conductor.Proofs.Engine.Counters
/-!
# Engine — what is heard of a build

The builds of an engine are numbered in the order in which they are started, whatever call
starts them, so a number is that of one build (`Session.Numbered`). What is reported under
it is the start of the build and then its end, if it has one and the task did not break
down. A step of a session starts a build, or ends one, or nothing is heard of builds in it
(`Session.Stirs`).
-/

namespace Conductor

namespace Session

open Call (NoBuildSaid events StageStep)
open BuildStage (asked mem_asked)

/-- A build that was started: for which unit of which call, and what the builder was asked. -/
structure Launch where
  call : Nat
  unit : Nat
  builder : Selector
  input : BuildInput

/-- The number of the build. -/
def Launch.number (x : Launch) : Nat := x.input.build

/-- The build that a deed starts. -/
def Deed.launch? (d : Deed) : Option Launch :=
  match d.effect with
  | .build b unit input => some ⟨d.call, unit, b, input⟩
  | _ => none

/-- The builds that were started. -/
def launches (deeds : List Deed) : List Launch := deeds.filterMap Deed.launch?

/-- What is reported of the build with a number. -/
def heardOf (n : Nat) (deeds : List Deed) : List LifecycleEvent :=
  (told deeds).filter (LifecycleEvent.isOfBuild n)

/-- **The builds are numbered** in their order, and of each its start was reported, and then
its end unless the task broke down. -/
structure Numbered (s : Session) (is : List Input) (deeds : List Deed) : Prop where
  numbers : (launches deeds).map Launch.number = List.range s.ledger.started
  heard : ∀ x ∈ launches deeds, heardOf x.number deeds =
    .buildStarted x.number x.builder x.input.groupIds ::
      (endsOf x.call x.unit is).flatMap (BuildEnd.reports x.number)
  unheard : ∀ n, s.ledger.started ≤ n → heardOf n deeds = []

/-- **What a step of a session is for the builds.** -/
inductive Stirs (s : Session) (is : List Input) (deeds : List Deed) : Input → Session →
    List Deed → Prop
  | rests {i : Input} {t : Session} {more : List Deed} :
    t.ledger.started = s.ledger.started → launches more = [] → (∀ n, heardOf n more = []) →
      (∀ k unit, i.ends k unit = none) → Stirs s is deeds i t more
  | launches {i : Input} {t : Session} {x : Launch} :
    x.number = s.ledger.started → t.ledger.started = s.ledger.started + 1 →
      endsOf x.call x.unit is = [] → (∀ k unit, i.ends k unit = none) →
        Stirs s is deeds i t
          [⟨x.call, .event (.buildStarted x.number x.builder x.input.groupIds)⟩,
            ⟨x.call, .build x.builder x.unit x.input⟩]
  | ends {t : Session} {x : Launch} {how : BuildEnd} : x ∈ launches deeds →
      (∀ y ∈ launches deeds, y.call = x.call → y.unit = x.unit → y.number = x.number) →
        t.ledger.started = s.ledger.started →
          Stirs s is deeds (.call x.call (.finish x.unit how)) t
            ((how.reports x.number).map fun y => ⟨x.call, .event y⟩)

variable {e : Engine} {s t : Session} {i : Input} {is : List Input} {deeds more : List Deed}
  {es : List Entry} {k unit n : Nat} {c c' : Call} {fx : List Effect} {x : Launch}

@[simp] theorem launches_append : launches (deeds ++ more) = launches deeds ++ launches more :=
  List.filterMap_append

@[simp] theorem heardOf_append : heardOf n (deeds ++ more) = heardOf n deeds ++ heardOf n more := by
  simp [heardOf]

/-- A build that was started is what the builder was asked. -/
theorem mem_launches : x ∈ launches deeds ↔ ⟨x.call, .build x.builder x.unit x.input⟩ ∈ deeds := by
  constructor
  · intro h
    obtain ⟨⟨call, effect⟩, hd, hx⟩ := List.mem_filterMap.1 h
    cases effect <;> cases hx
    exact hd
  · exact fun h => List.mem_filterMap.2 ⟨_, h, rfl⟩

/-- Where nothing is said of builds, nothing is heard of them. -/
theorem unheard_of_noBuildSaid (h : NoBuildSaid fx) :
    launches (fx.map (⟨k, ·⟩)) = [] ∧ ∀ n, heardOf n (fx.map (⟨k, ·⟩)) = [] := by
  refine ⟨List.filterMap_eq_nil_iff.2 fun d hd => ?_, fun n => ?_⟩
  · obtain ⟨y, hy, rfl⟩ := List.mem_map.1 hd
    have := h y hy
    cases y <;> first | rfl | cases this
  · rw [heardOf, told_map]
    exact List.filter_eq_nil_iff.2 fun y hy => by simp [(h.silent hy).2.2 n]

/-! ## Steps -/

/-- What a step of a call is for the builds of its session. -/
theorem stirs_of_stageStep {j : CallInput} (h : Enters e is s deeds es)
    (hc : s.calls[k]? = some c) (hstep : StageStep s.ledger c j t.ledger c' fx)
    (hi : j.unit? = none → ∀ k unit, i.ends k unit = none)
    (hcall : i = .call k j ∨ j.unit? = none) : Stirs s is deeds i t (fx.map (⟨k, ·⟩)) := by
  have hstories := h.recounted hc
  generalize hl' : t.ledger = l' at hstep
  cases hstep with
  | @proceed o s₀ s' l' fx hphase hs =>
    rw [hphase] at hstories
    rcases BuildStage.proceed_cases hs with ⟨_, u, hit, -, -, -, rfl, rfl⟩ |
      ⟨_, u, -, -, -, rfl, rfl⟩ | ⟨unit, u, hslot, -, rfl, rfl⟩
    · exact .rests (by rw [hl']; rfl) rfl (fun n => rfl) (hi rfl)
    · exact .rests (by rw [hl']) rfl (fun n => rfl) (hi rfl)
    · exact .launches (x := ⟨k, unit, s₀.builder, s₀.inputOf u s.ledger.started⟩) rfl
        (by rw [hl']; rfl) (congrArg Call.Story.ends (hstories.1 unit _ hslot)) (hi rfl)
  | @finish o s₀ s' unit how fx hphase hs =>
    rw [hphase] at hstories
    obtain ⟨u, n, hslot, -, rfl⟩ := BuildStage.finish_reports hs
    have hasks : asked unit (deedsOf k deeds) = [(s₀.builder, s₀.inputOf u n)] :=
      congrArg Call.Story.asks (hstories.1 unit _ hslot)
    obtain rfl := hcall.resolve_right nofun
    rw [List.map_map]
    refine .ends (x := ⟨k, unit, s₀.builder, s₀.inputOf u n⟩) ?_ ?_ (by rw [hl'])
    · exact mem_launches.2 (mem_deedsOf.1 (mem_asked.1 (by simp [hasks])))
    · rintro ⟨_, _, b, input⟩ hy rfl rfl
      have hmem := mem_asked.2 (mem_deedsOf.2 (mem_launches.1 hy))
      rw [hasks, List.mem_singleton] at hmem
      cases hmem
      rfl
  | @join o s₀ s' unit l' hphase hs =>
    obtain rfl := hcall.resolve_right nofun
    refine .rests ?_ rfl (fun n => rfl) (fun k unit => ?_)
    · obtain ⟨-, u, n, how, -, ⟨out, -, -, rfl⟩ | ⟨failure, -, rfl, -⟩⟩ :=
        BuildStage.join_cases hs
      · rw [hl']
        rfl
      · rw [hl']
    · rw [Input.ends]
      split <;> rfl
  | stays hj _ hsaid =>
    obtain ⟨hnone, hunheard⟩ := unheard_of_noBuildSaid (k := k) hsaid
    exact .rests (by rw [hl']) hnone hunheard (hi hj)
  | passes hj _ _ hsame hsaid =>
    obtain ⟨hnone, hunheard⟩ := unheard_of_noBuildSaid (k := k) hsaid
    exact .rests (by rw [hl', hsame.started]) hnone hunheard (hi hj)

/-- **Every step is one of these.** -/
theorem Stirs.of_step (h : Enters e is s deeds es) (step : s.step e i = some (t, more)) :
    Stirs s is deeds i t more := by
  cases i with
  | call k j =>
    obtain ⟨c, l', c', fx, hc, hstep, rfl, rfl, -, -⟩ := stepCall_cases step
    refine stirs_of_stageStep h hc (.of_step hstep) (fun hj k' unit => ?_) (.inl rfl)
    rw [Input.ends]
    split
    · exact Call.ends_of_unit?_eq_none hj
    · rfl
  | start runId canceled r =>
    cases (Move.of_step step).1 with
    | begins _ _ _ hledger =>
      obtain ⟨-, hsaid, -⟩ := Call.start_counts e runId canceled r
      obtain ⟨hnone, hunheard⟩ := unheard_of_noBuildSaid (k := s.calls.length) hsaid
      exact .rests (by rw [hledger]) hnone hunheard fun _ _ => rfl
    | steps hi => cases hi
    | attends hi => cases hi
    | rests hi => cases hi
  | checkup runner a =>
    cases (Move.of_step step).1 with
    | steps _ hc hstep hi hledger =>
      obtain ⟨r, rfl⟩ := hi.resolve_left (by simp)
      subst hledger
      exact stirs_of_stageStep h hc (.of_step hstep) (fun _ _ _ => rfl) (.inr rfl)
    | attends _ _ hledger => exact .rests (by rw [hledger]) rfl (fun n => rfl) fun _ _ => rfl
    | rests _ hledger => exact .rests (by rw [hledger]) rfl (fun n => rfl) fun _ _ => rfl

/-! ## Numbers -/

/-- A number is that of one build. -/
theorem Numbered.unique (h : Numbered s is deeds) {y : Launch} (hx : x ∈ launches deeds)
    (hy : y ∈ launches deeds) (heq : y.number = x.number) : y = x := by
  have hnodup : ((launches deeds).map Launch.number).Nodup := by
    rw [h.numbers]
    exact List.nodup_range
  exact List.inj_on_of_nodup_map hnodup hy hx heq

/-- Numbers are given out below the next one. -/
theorem Numbered.lt (h : Numbered s is deeds) (hx : x ∈ launches deeds) :
    x.number < s.ledger.started := by
  have hmem := List.mem_map_of_mem (f := Launch.number) hx
  rw [h.numbers] at hmem
  exact List.mem_range.1 hmem

/-- The end of a build is heard under its number only. -/
theorem heardOf_reports {how : BuildEnd} {m : Nat} :
    heardOf n ((how.reports m).map fun y => ⟨k, .event y⟩) =
      if m = n then how.reports m else [] := by
  cases how with
  | returned result => by_cases hmn : m = n <;> simp [heardOf, told, events, BuildEnd.reports,
      Effect.event?, LifecycleEvent.isOfBuild, hmn]
  | broke message => simp [heardOf, told, events, BuildEnd.reports]

/-- **The step lemma.** -/
theorem Numbered.step (h : Numbered s is deeds) (stirs : Stirs s is deeds i t more) :
    Numbered t (is ++ [i]) (deeds ++ more) := by
  have endsOf_append : ∀ k unit, endsOf k unit (is ++ [i]) =
      endsOf k unit is ++ (i.ends k unit).toList := by
    intro k unit
    rw [endsOf, List.filterMap_append]
    cases hi : i.ends k unit <;> simp [endsOf, hi]
  cases stirs with
  | rests hstarted hnone hunheard hends =>
    refine ⟨?_, fun x hx => ?_, fun n hn => ?_⟩
    · rw [launches_append, hnone, List.append_nil, hstarted]
      exact h.numbers
    · rw [launches_append, hnone, List.append_nil] at hx
      rw [heardOf_append, hunheard, List.append_nil, endsOf_append, hends]
      simpa using h.heard x hx
    · rw [heardOf_append, hunheard, List.append_nil]
      exact h.unheard n (hstarted ▸ hn)
  | @launches _ _ x hx hstarted hnew hends =>
    have hmore : heardOf x.number
        [⟨x.call, .event (.buildStarted x.number x.builder x.input.groupIds)⟩,
          ⟨x.call, .build x.builder x.unit x.input⟩] =
        [.buildStarted x.number x.builder x.input.groupIds] := by
      simp [heardOf, told, events, Effect.event?, LifecycleEvent.isOfBuild]
    have hothers : ∀ n, n ≠ x.number → heardOf n
        [⟨x.call, .event (.buildStarted x.number x.builder x.input.groupIds)⟩,
          ⟨x.call, .build x.builder x.unit x.input⟩] = [] := by
      intro n hn
      simp [heardOf, told, events, Effect.event?, LifecycleEvent.isOfBuild, Ne.symm hn]
    refine ⟨?_, fun y hy => ?_, fun n hn => ?_⟩
    · rw [launches_append, List.map_append, h.numbers, hstarted, List.range_succ, ← hx]
      rfl
    · rw [launches_append] at hy
      rw [heardOf_append, endsOf_append, hends, Option.toList_none, List.append_nil]
      rcases List.mem_append.1 hy with hy | hy
      · rw [hothers _ (by have := h.lt hy; omega), List.append_nil]
        exact h.heard y hy
      · obtain rfl : y = x := List.mem_singleton.1 hy
        rw [h.unheard _ (by omega), hmore, hnew]
        rfl
    · rw [heardOf_append, h.unheard n (by omega), hothers n (by omega)]
      rfl
  | @ends t x how hx hown hstarted =>
    have hnone : launches ((how.reports x.number).map fun y => ⟨x.call, .event y⟩) = [] :=
      List.filterMap_eq_nil_iff.2 fun d hd => by
        obtain ⟨y, -, rfl⟩ := List.mem_map.1 hd
        rfl
    refine ⟨?_, fun y hy => ?_, fun n hn => ?_⟩
    · rw [launches_append, hnone, List.append_nil, hstarted]
      exact h.numbers
    · rw [launches_append, hnone, List.append_nil] at hy
      rw [heardOf_append, endsOf_append, heardOf_reports, h.heard y hy]
      -- the build that has ended is the only one with its number
      by_cases hsame : x.call = y.call ∧ x.unit = y.unit
      · obtain ⟨hcall, hunit⟩ := hsame
        rw [hown y hy hcall.symm hunit.symm, if_pos rfl]
        simp [Input.ends, CallInput.ends, hcall, hunit]
      · have hne : x.number ≠ y.number := fun heq =>
          hsame (by rw [h.unique hx hy heq.symm]; exact ⟨rfl, rfl⟩)
        have hends : (Input.call x.call (.finish x.unit how)).ends y.call y.unit = none := by
          simp only [Input.ends, CallInput.ends]
          by_cases hcall : x.call = y.call
          · rw [if_pos hcall, if_neg fun hunit => hsame ⟨hcall, hunit⟩]
          · rw [if_neg hcall]
        rw [if_neg hne, hends]
        simp
    · rw [heardOf_append, h.unheard n (by omega), heardOf_reports,
        if_neg (by have := h.lt hx; omega)]
      rfl

/-- **At every point of a session the builds are numbered.** -/
theorem Enters.numbered (h : Enters e is s deeds es) : Numbered s is deeds := by
  induction h with
  | start => exact ⟨rfl, fun x hx => (List.not_mem_nil hx).elim, fun _ _ => rfl⟩
  | next enters step ih => exact ih.step (.of_step enters step)

/-- **What is heard of a build** of a call whose builds are over: its start, and then its end,
unless the task broke down. -/
theorem Enters.heard (h : Enters e is s deeds es) {b : Selector} {groups : List String}
    (hstarted : .buildStarted n b groups ∈ told deeds) :
    ∃ k unit input, ⟨k, .build b unit input⟩ ∈ deeds ∧ input.build = n ∧ input.groupIds = groups ∧
      heardOf n deeds =
        .buildStarted n b groups :: (endsOf k unit is).flatMap (BuildEnd.reports n) := by
  have hnumbered := h.numbered
  have hmem : LifecycleEvent.buildStarted n b groups ∈ heardOf n deeds :=
    List.mem_filter.2 ⟨hstarted, by simp [LifecycleEvent.isOfBuild]⟩
  have hlt : n < s.ledger.started := by
    by_contra hn
    rw [hnumbered.unheard n (by omega)] at hmem
    cases hmem
  obtain ⟨x, hx, rfl⟩ : ∃ x ∈ launches deeds, x.number = n := by
    rw [← List.mem_map, hnumbered.numbers]
    exact List.mem_range.2 hlt
  have hheard := hnumbered.heard x hx
  rw [hheard] at hmem
  rcases List.mem_cons.1 hmem with heq | hmem
  · cases heq
    exact ⟨x.call, x.unit, x.input, mem_launches.1 hx, rfl, rfl, hheard⟩
  · obtain ⟨how, -, hhow⟩ := List.mem_flatMap.1 hmem
    cases how with
    | returned result => cases List.mem_singleton.1 hhow
    | broke message => cases hhow

end Session

end Conductor
