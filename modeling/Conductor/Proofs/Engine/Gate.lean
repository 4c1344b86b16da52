import Conductor.Proofs.Engine.Checkups
import Conductor.Proofs.Health.Policy
/-!
# Engine — the gate in front of a run

A run whose policy has the health of the runner checked is held at a gate until the report
is there, which decides (`Call.judged_passGate`), once for all (`Call.Step.judged`).

In a session the answers of the runner take their way through its checkup. While a call is
held (`Session.Held`) that checkup goes on and answers nobody, so the step that ends this is
the one that hands the call the report of the table (`Held.step`). So it is what the checks
and the fixes of the runner answer, and nothing else, that lets the run start or stops it
(`Session.Follows.gate_decides`).
-/

namespace Conductor

/-! ## What comes of the report -/

namespace Call

/-- The run that was let through, on its way or at its end, has the report of health. -/
def LetThrough (o : RunOrder) (builds : List BuildResult) (report : HealthReport) :
    CallPhase → Prop
  | .running p => p = ⟨o, builds, some report⟩
  | .collecting p => p = ⟨o, builds, some report⟩
  | .finished (.ok (.report r)) => r.builds = builds ∧ r.health = some report
  | .finished (.error x) => x.stage = .run
  | _ => False

/-- **What is decided at the gate**: the run is rejected where the policy has something
against the trials, and let through otherwise. -/
structure Judged (trials : List Trial) (o : RunOrder) (builds : List BuildResult)
    (phase : CallPhase) : Prop where
  rejected : (∃ reason, o.policy.Objects trials reason) → ∃ reason,
    o.policy.Objects trials reason ∧
      phase = .finished (.error (.rejected reason.text (Trial.report o.policy.fix trials)))
  passed : (∀ reason, ¬ o.policy.Objects trials reason) →
    LetThrough o builds (Trial.report o.policy.fix trials) phase

variable {e : Engine} {l l' : Ledger} {c c' : Call} {j : CallInput} {fx : List Effect}
  {trials : List Trial} {o : RunOrder} {builds : List BuildResult} {report : HealthReport}

/-- A run that was let through starts, or ends with an error of its own. -/
theorem letThrough_startRun (c : Call) :
    LetThrough o builds report (c.startRun e ⟨o, builds, some report⟩).1.phase := by
  unfold startRun
  split
  · rename_i error herror
    obtain ⟨x, rfl⟩ := input_error herror
    exact rfl
  · split
    · exact rfl
    · exact rfl

/-- **The report decides.** -/
theorem judged_passGate (c : Call) (trials : List Trial) (o : RunOrder)
    (builds : List BuildResult) :
    Judged trials o builds
        (c.passGate e o builds (.ok (Trial.report o.policy.fix trials))).1.phase ∧
      .event (.healthcheckEvaluated o.runner.id (Trial.report o.policy.fix trials)) ∈
        (c.passGate e o builds (.ok (Trial.report o.policy.fix trials))).2 := by
  have hreport := o.policy.rejection?_report trials
  cases hrejection : o.policy.rejection? (Trial.report o.policy.fix trials) with
  | some reason =>
    rw [hrejection] at hreport
    simp only [passGate, hrejection]
    refine ⟨⟨fun _ => ⟨reason, hreport, rfl⟩, fun hnone => ?_⟩, List.mem_cons_self ..⟩
    exact absurd hreport (hnone reason)
  | none =>
    rw [hrejection] at hreport
    simp only [passGate, hrejection]
    refine ⟨⟨fun ⟨reason, hobjects⟩ => ?_, fun _ => letThrough_startRun c⟩, List.mem_cons_self ..⟩
    exact absurd hobjects (hreport reason)

/-- A run that was let through keeps its report to the end. -/
theorem Step.letThrough (h : Step e l c j l' c' fx) (hlet : LetThrough o builds report c.phase) :
    LetThrough o builds report c'.phase := by
  have hother : ∀ {phase : CallPhase}, c.phase = phase → ¬ LetThrough o builds report phase →
      LetThrough o builds report c'.phase := fun hphase hnot => absurd (hphase ▸ hlet) hnot
  cases h with
  | cancel => exact hlet
  | collect => exact hlet
  | hangUp => exact hlet
  | @report p hphase hdone =>
    rw [hphase] at hlet
    cases hlet
    exact ⟨rfl, rfl⟩
  | @returned p result hphase =>
    rw [hphase] at hlet
    cases result with
    | ok out => exact hlet
    | error x =>
      cases x with
      | canceled => exact hlet
      | failed causes => exact rfl
      | invalidInput reason => exact rfl
  | build hphase => exact hother hphase id
  | conclude hphase => exact hother hphase id
  | finish hphase => exact hother hphase id
  | join hphase => exact hother hphase id
  | pass hphase => exact hother hphase id
  | healthy hphase => exact hother hphase id
  | unhealthy hphase => exact hother hphase id

/-- **What was decided stands.** -/
theorem Step.judged (h : Step e l c j l' c' fx) (hjudged : Judged trials o builds c.phase) :
    Judged trials o builds c'.phase := by
  refine ⟨fun hobjects => ?_, fun hnone => h.letThrough (hjudged.passed hnone)⟩
  obtain ⟨reason, hreason, hphase⟩ := hjudged.rejected hobjects
  exact ⟨reason, hreason, (h.finished hphase).1⟩

/-- A call at the gate that is not canceled, and is told of no health, stays there. -/
theorem Step.gated (h : Step e l c j l' c' fx) (hphase : c.phase = .gated o builds)
    (hcancel : j ≠ .cancel) (htold : ∀ r, j ≠ .examined r) :
    c'.phase = .gated o builds ∧ c'.canceled = c.canceled ∧ ∀ x ∈ fx, x.IsQuiet := by
  obtain ⟨-, hbeside | ⟨r, hr⟩⟩ := h.at_rest (by rw [hphase]; trivial)
  · refine ⟨hbeside.phase_eq.trans hphase, ?_, hbeside.quiet⟩
    cases hbeside with
    | cancel => exact absurd rfl hcancel
    | collect => rfl
    | hangUp => rfl
  · exact absurd hr (htold r)

end Call

namespace Session

variable {e : Engine} {s t : Session} {i : Input} {is js : List Input} {deeds more : List Deed}
  {k n : Nat} {runner other : Selector} {trials : List Trial} {o : RunOrder}
  {builds : List BuildResult} {turns : Nat} {c : Call} {ch ch' : Checkup}

/-! ## At the gate -/

/-- What may happen where a call is not canceled, hears of the health of its runner from the
checkup only, and the runner answers as the trials say. -/
def Admits (trials : List Trial) (k : Nat) (runner : Selector) (s : Session) : Input → Prop
  | .start _ _ _ => True
  | .call n j => n = k → j ≠ .cancel ∧ ∀ r, j ≠ .examined r
  | .checkup other a => other = runner → ∀ ch, s.checkup? runner = some ch → ch.AnswersBy trials a

/-- The checkup that is there may go on by the trials. -/
theorem admits_checkup {a : Checkup.Action} (hfound : s.checkup? runner = some ch)
    (hanswers : ch.AnswersBy trials a) : Admits trials k runner s (.checkup runner a) := by
  intro _ ch' hch'
  obtain rfl : ch = ch' := Option.some.inj (hfound.symm.trans hch')
  exact hanswers

/-- What comes behind a session where nothing else happens. -/
inductive Tries (e : Engine) (trials : List Trial) (k : Nat) (runner : Selector) (s : Session) :
    List Input → Session → List Deed → Prop
  | refl : Tries e trials k runner s [] s []
  | concat {is : List Input} {t u : Session} {deeds more : List Deed} {i : Input} :
    Tries e trials k runner s is t deeds → Admits trials k runner t i →
      t.step e i = some (u, more) → Tries e trials k runner s (is ++ [i]) u (deeds ++ more)

/-- **A call is held at the gate**, and nobody has canceled it. -/
structure Held (trials : List Trial) (k : Nat) (o : RunOrder) (builds : List BuildResult)
    (s : Session) (turns : Nat) : Prop where
  call : ∃ c, s.calls[k]? = some c ∧ c.phase = .gated o builds ∧ c.canceled = false
  sought : Sought trials k o.policy.fix o.runner.id s turns

/-- What has been decided of a call: the report was told, and it is rejected or let through. -/
def Settled (trials : List Trial) (k : Nat) (o : RunOrder) (builds : List BuildResult)
    (s : Session) (deeds : List Deed) : Prop :=
  (∃ c, s.calls[k]? = some c ∧ Call.Judged trials o builds c.phase) ∧
    .event (.healthcheckEvaluated o.runner.id (Trial.report o.policy.fix trials)) ∈ deedsOf k deeds

namespace Held

/-- The steps of other calls do not matter. -/
theorem accept_other {fx : List Effect} (h : Held trials k o builds s turns)
    (hcalls : t.calls[k]? = s.calls[k]?) (hcheckups : t.checkups = s.checkups) (hn : n ≠ k)
    (c : Call) : Held trials k o builds (t.accept n c fx).1 turns := by
  obtain ⟨c₀, hc₀, hphase, hcanceled⟩ := h.call
  refine ⟨⟨c₀, ?_, hphase, hcanceled⟩, Sought.accept (h.sought.congr hcheckups) (.inl hn) c⟩
  rw [(accept_keeps t n c fx).2.1, List.getElem?_set_ne hn, hcalls, hc₀]

/-- A call that steps beside. -/
theorem stepCall_other {j : CallInput} (h : Held trials k o builds s turns) (hn : n ≠ k)
    (hstep : s.stepCall e n j = some (t, more)) : Held trials k o builds t turns := by
  obtain ⟨c, l', c', fx, -, -, rfl⟩ := stepCall_eq hstep
  exact h.accept_other (t := { s with ledger := l' }) rfl rfl hn c'

/-- What the call itself does at the gate. -/
theorem stepCall_own {j : CallInput} (h : Held trials k o builds s turns) (hcancel : j ≠ .cancel)
    (htold : ∀ r, j ≠ .examined r) (hstep : s.stepCall e k j = some (t, more)) :
    Held trials k o builds t turns := by
  obtain ⟨c₀, hc₀, hphase, hcanceled⟩ := h.call
  obtain ⟨c, l', c', fx, hc, hcall, rfl⟩ := stepCall_eq hstep
  obtain rfl : c = c₀ := Option.some.inj (hc.symm.trans hc₀)
  obtain ⟨hphase', hcanceled', hquiet⟩ := (Call.Step.of_step hcall).gated hphase hcancel htold
  obtain ⟨-, hcalls, -⟩ := accept_keeps { s with ledger := l' } k c' fx
  have hsought : Sought trials k o.policy.fix o.runner.id { s with ledger := l' } turns :=
    h.sought.congr rfl
  refine ⟨⟨c', ?_, hphase', hcanceled'.trans hcanceled⟩, hsought.accept (.inr hquiet) c'⟩
  rw [hcalls, List.getElem?_set_self (List.getElem?_eq_some_iff.1 hc₀).1]

/-- The health of another runner is checked. -/
theorem stepCheckup_other {a : Checkup.Action} (h : Held trials k o builds s turns)
    (hother : other ≠ o.runner.id) (hstep : s.stepCheckup e other a = some (t, more)) :
    Held trials k o builds t turns := by
  obtain ⟨ch, hfound, hmay, hstep⟩ := stepCheckup_cases hstep
  have hseek : k ∉ ch.seekers := h.sought.not_seeks hother hfound
  have hput : ∀ {d : Checkup} {replies : List Checkup.Reply}, ch.act a = some (d, replies) →
      Held trials k o builds (s.putCheckup other d) turns := by
    refine fun hact => ⟨h.call, h.sought.put_other hother fun hk => ?_⟩
    rcases (Checkup.acts_of_act hact).seekers k hk with hk | ⟨fix, rfl⟩
    · exact hseek hk
    · cases hmay
  cases hstep with
  | rests hact => exact hput hact
  | attends hact _ => exact hput hact
  | @tells d n r _ _ hact htold =>
    -- who is answered here is another call
    have hn : n ≠ k := by
      rintro rfl
      exact hseek (Checkup.seeks_of_answer hact (List.mem_singleton_self _))
    exact (hput hact).stepCall_other hn htold
  | unheard hact _ => exact hput hact

/-- At the gate the evaluation is not given up, for the call that has it made is not
canceled. -/
theorem heeds {a : Checkup.Action} (h : Held trials k o builds s turns) {as : List Checkup.Action}
    {rs : List Checkup.Reply} {r : Checkup × List Checkup.Reply}
    (htried : Checkup.Tried trials (fun _ => False) (.ofItems (trials.map Trial.item)) as ch rs)
    (hfirst : (Checkup.asks as).head? = some (k, o.policy.fix)) (hmay : s.mayAct ch a = true)
    (hact : ch.act a = some r) : ch.Heeds (fun _ => False) a := by
  cases a with
  | ask caller fix => trivial
  | turn => trivial
  | invoke => trivial
  | checked r => exact fun _ _ => not_false
  | fixed r => exact fun _ _ => not_false
  | abandon =>
    simp only [Checkup.act] at hact
    split at hact
    · rename_i caller ev hprogress
      obtain ⟨hcaller, -⟩ := htried.evaluates hprogress
      rw [hfirst, Option.some.injEq, Prod.mk.injEq] at hcaller
      obtain ⟨rfl, -⟩ := hcaller
      obtain ⟨c, hc, -, hcanceled⟩ := h.call
      simp [mayAct, callerOf, hprogress, hc, hcanceled] at hmay
    · cases hact

/-- **The step of the checkup of the runner**: the call stays at the gate, or it is handed
the report of the table. -/
theorem stepCheckup_own {a : Checkup.Action} (h : Held trials k o builds s turns)
    (hanswers : ∀ ch, s.checkup? o.runner.id = some ch → ch.AnswersBy trials a)
    (hstep : s.stepCheckup e o.runner.id a = some (t, more)) :
    Held trials k o builds t (turns + 1) ∨ Settled trials k o builds t more := by
  obtain ⟨ch, hfound, hmay, hstep⟩ := stepCheckup_cases hstep
  obtain ⟨as, ch₀, rs, hch, htried, hfirst, hnone, hlength⟩ := h.sought.tried
  obtain rfl : ch = ch₀ := Option.some.inj (hfound.symm.trans hch)
  have hnext : ∀ {d : Checkup} {replies : List Checkup.Reply}, ch.act a = some (d, replies) →
      Checkup.Tried trials (fun _ => False) (.ofItems (trials.map Trial.item)) (as ++ [a]) d
        (rs ++ replies) :=
    fun hact => htried.concat hact (hanswers ch hfound) (h.heeds htried hfirst hmay hact)
  have hfirst' := Checkup.head?_asks_concat hfirst a
  have hasks : Checkup.asks (as ++ [a]) = Checkup.asks as := by
    cases a with
    | ask caller fix => cases hmay
    | _ => simp [Checkup.asks, Checkup.Action.asks?]
  have hput : ∀ {d : Checkup} {replies : List Checkup.Reply}, ch.act a = some (d, replies) →
      (∀ r, .answer k r ∉ rs ++ replies) →
        Held trials k o builds (s.putCheckup o.runner.id d) (turns + 1) := by
    refine fun hact hnone' => ⟨h.call, ⟨as ++ [a], _, _, checkup?_putCheckup hfound, hnext hact,
      hfirst', hnone', ?_⟩, fun x hx hne => ?_⟩
    · rw [hasks, List.length_append, List.length_singleton]
      omega
    · exact h.sought.elsewhere x (mem_putCheckup_of_ne hx hne) hne
  -- the first answer is the report, and it is for this call
  have hanswer : ∀ {d : Checkup} {n : Nat} {r : HealthResult},
      ch.act a = some (d, [.answer n r]) → k = n ∧ r = .ok (Trial.report o.policy.fix trials) := by
    intro d n r hact
    obtain ⟨rfl, hmem⟩ := (hnext hact).answer (k := n) (r := r) hfirst' (by simp)
    refine ⟨?_, rfl⟩
    rcases List.mem_append.1 hmem with hmem | hmem
    · exact absurd hmem (hnone _)
    · cases List.mem_singleton.1 hmem
      rfl
  obtain ⟨c, hc, hphase, -⟩ := h.call
  have hpass : c.step e s.ledger (.examined (.ok (Trial.report o.policy.fix trials))) =
      some (s.ledger, c.passGate e o builds (.ok (Trial.report o.policy.fix trials))) := by
    simp only [Call.step, hphase]
  cases hstep with
  | rests hact => exact .inl (hput hact (by simpa using hnone))
  | attends hact _ => exact .inl (hput hact (by simpa using hnone))
  | tells hact htold =>
    right
    obtain ⟨rfl, rfl⟩ := hanswer hact
    obtain ⟨hjudged, hreport⟩ := Call.judged_passGate (e := e) c trials o builds
    obtain ⟨c₀, l', c', fx, hc₀, htells, rfl, -, hcalls, -⟩ := stepCall_cases htold
    obtain rfl : c₀ = c := Option.some.inj (hc₀.symm.trans hc)
    cases hpass.symm.trans htells
    refine ⟨⟨_, ?_, hjudged⟩, ?_⟩
    · rw [hcalls]
      exact List.getElem?_set_self (List.getElem?_eq_some_iff.1 hc).1
    · rw [deedsOf_own]
      exact hreport
  | unheard hact hsilent =>
    obtain ⟨rfl, rfl⟩ := hanswer hact
    simp [stepCall, putCheckup, hc, hpass] at hsilent

/-- **The step lemma.** -/
theorem step (h : Held trials k o builds s turns) (hadmits : Admits trials k o.runner.id s i)
    (hstep : s.step e i = some (t, more)) :
    Held trials k o builds t (turns + (i.isTurnOf o.runner.id).toNat) ∨
      Settled trials k o builds t more := by
  cases i with
  | start runId canceled request =>
    obtain ⟨c, hc, -⟩ := h.call
    have hlt := (List.getElem?_eq_some_iff.1 hc).1
    have ht : t = (Session.start e s runId canceled request).1 :=
      (congrArg Prod.fst (Option.some.inj hstep)).symm
    rw [ht]
    exact .inl (h.accept_other (t := { s with calls := s.calls ++ [_] })
      (List.getElem?_append_left hlt) rfl (Nat.ne_of_gt hlt) _)
  | call n j =>
    left
    by_cases hn : n = k
    · subst hn
      obtain ⟨hcancel, htold⟩ := hadmits rfl
      exact h.stepCall_own hcancel htold hstep
    · exact h.stepCall_other hn hstep
  | checkup other a =>
    by_cases hother : other = o.runner.id
    · subst hother
      have hturn : (Input.checkup o.runner.id a).isTurnOf o.runner.id = true := by
        simp [Input.isTurnOf]
      rw [hturn]
      exact h.stepCheckup_own (hadmits rfl) hstep
    · have hturn : (Input.checkup other a).isTurnOf o.runner.id = false := by
        simp [Input.isTurnOf, hother]
      rw [hturn]
      exact .inl (h.stepCheckup_other hother hstep)

/-- The checkup goes on, and it has only so many turns. -/
theorem goesOn (h : Held trials k o builds s turns) :
    turns ≤ 4 * trials.length + 2 ∧ ∃ a, Admits trials k o.runner.id s (.checkup o.runner.id a) ∧
      (s.step e (.checkup o.runner.id a)).isSome := by
  obtain ⟨as, ch, rs, hfound, htried, hfirst, hnone, hlength⟩ := h.sought.tried
  obtain ⟨hasks, hbound⟩ := htried.unanswered hfirst hnone
  refine ⟨by omega, ?_⟩
  have hpending : ch.pending ≠ [] := by
    intro hnil
    rw [hasks, hnil] at hfirst
    cases hfirst
  obtain ⟨a, hask, hanswers, hheeds, hact⟩ := htried.goesOn.resolve_left hpending
  have hmay : s.mayAct ch a = true := by
    cases a with
    | ask caller fix => cases hask
    | abandon =>
      simp only [Checkup.act] at hact
      split at hact
      · rename_i caller ev hprogress
        obtain ⟨-, n, hn⟩ := htried.evaluates hprogress
        exact (hheeds n (by simp [Checkup.awaited?, hprogress, hn])).elim
      · cases hact
    | _ => rfl
  exact ⟨a, admits_checkup hfound hanswers, isSome_step_checkup hfound hmay hact⟩

end Held

/-- What was decided stands, whatever comes. -/
theorem Settled.append (h : Settled trials k o builds s deeds)
    (hstep : s.step e i = some (t, more)) : Settled trials k o builds t (deeds ++ more) := by
  obtain ⟨⟨c, hc, hjudged⟩, htold⟩ := h
  have hmove := (Move.of_step hstep).1
  have hlt := (List.getElem?_eq_some_iff.1 hc).1
  obtain ⟨c', hc'⟩ : ∃ c', t.calls[k]? = some c' :=
    ⟨_, List.getElem?_eq_getElem (Nat.lt_of_lt_of_le hlt hmove.length_le)⟩
  refine ⟨⟨c', hc', ?_⟩, ?_⟩
  · rcases hmove.turn hc' with ⟨hk, -⟩ | ⟨c₀, hc₀, hturn⟩
    · exact absurd hlt (by simp [hk])
    · obtain rfl : c₀ = c := Option.some.inj (hc₀.symm.trans hc)
      generalize deedsOf k more = fx at hturn
      cases hturn with
      | own hcall _ => exact (Call.Step.of_step hcall).judged hjudged
      | attended => exact hjudged
      | idle => exact hjudged
  · rw [deedsOf_append]
    exact List.mem_append_left _ htold

/-- **The run lemma.** -/
theorem Tries.held_or_settled (h : Tries e trials k o.runner.id s js t deeds)
    (hheld : Held trials k o builds s 0) :
    Held trials k o builds t (js.countP (Input.isTurnOf o.runner.id)) ∨
      Settled trials k o builds t deeds := by
  induction h with
  | refl => exact .inl hheld
  | @concat js t u deeds more i _ hadmits hstep ih =>
    rcases ih with hheld | hsettled
    · rw [List.countP_append, List.countP_singleton]
      rcases hheld.step hadmits hstep with hheld | ⟨hcall, htold⟩
      · left
        cases hturn : i.isTurnOf o.runner.id <;> simpa [hturn] using hheld
      · right
        refine ⟨hcall, ?_⟩
        rw [deedsOf_append]
        exact List.mem_append_right _ htold
    · exact .inr (hsettled.append hstep)

/-- The first that asks for the health of its runner is held. -/
theorem held_ask (hc : s.calls[k]? = some c) (hphase : c.phase = .gated o builds)
    (hcanceled : c.canceled = false) (hunseen : ¬ s.Seeks k)
    (hfresh : s.checkup? o.runner.id = some (.ofItems (trials.map Trial.item))) :
    Held trials k o builds (s.ask k o.runner.id o.policy.fix) 0 := by
  have hnew : Checkup.Tried trials (fun _ => False) (.ofItems (trials.map Trial.item)) [] _ [] :=
    .refl
  have htried := hnew.concat (a := .ask k o.policy.fix) rfl trivial trivial
  have hask : s.ask k o.runner.id o.policy.fix =
      s.putCheckup o.runner.id ⟨trials.map Trial.item, .unbegun, [(k, o.policy.fix)]⟩ := by
    simp only [Session.ask, hfresh]
    rfl
  rw [hask]
  refine ⟨⟨c, hc, hphase, hcanceled⟩,
    ⟨_, _, _, checkup?_putCheckup hfresh, htried, rfl, by simp, rfl⟩, fun x hx hne hk => ?_⟩
  exact hunseen ⟨x, mem_putCheckup_of_ne hx hne, hk⟩

/-- **A call comes to the gate** when its builds are there. -/
theorem Follows.held {comp : Composition} {opts : CallOptions} {stage : BuildStage}
    (h : Follows e is s deeds) (hr : (requests is)[k]? = some (.orchestrate comp opts))
    (hc : s.calls[k]? = some c) (hphase : c.phase = .building (some o) stage)
    (hcanceled : c.canceled = false) (hover : stage.isOver = true)
    (houtcome : stage.outcome false = .ok builds)
    (henabled : o.policy.enabled = true) (hhealth : o.runner.health.isSome = true)
    (hfresh : s.checkup? o.runner.id = some (.ofItems (trials.map Trial.item))) :
    ∃ s₁ fx, s.step e (.call k .proceed) = some (s₁, fx) ∧ Held trials k o builds s₁ 0 := by
  have hlt := (List.getElem?_eq_some_iff.1 hc).1
  have hproceed := BuildStage.proceed_of_isOver hover s.ledger
  have hunseen : ¬ s.Seeks k := by
    intro hseeks
    have htidy := h.tidy hr hc
    rw [hphase] at htidy
    obtain ⟨runner, fix, hmem⟩ := h.examines_of_seeks hseeks
    cases htidy.2.1 _ hmem
  have hgate : c.step e s.ledger .proceed = some (s.ledger, c.enter (.gated o builds),
      [.examine o.runner.id o.policy.fix]) := by
    simp only [Call.step, Call.proceed, hphase, hproceed, hover, if_true, Call.concludeBuilds,
      hcanceled, houtcome, Call.gate, henabled, hhealth, and_self]
  let asked : Session := { s with calls := s.calls.set k (c.enter (.gated o builds)) }
  have hstep : s.step e (.call k .proceed) = some (asked.ask k o.runner.id o.policy.fix,
      [⟨k, .examine o.runner.id o.policy.fix⟩]) := by
    rw [Session.step, stepCall, hc, Option.bind_eq_bind, Option.bind_some, hgate]
    rfl
  have hcalls : asked.calls[k]? = some (c.enter (.gated o builds)) := List.getElem?_set_self hlt
  exact ⟨_, _, hstep, held_ask hcalls rfl hcanceled hunseen hfresh⟩

/-- **The gate stops a run exactly when it should.** Let the builds of an orchestration be
there, with a policy that has the health of the runner checked, whatever items that has, and
let nobody have asked for it before. Then the call comes to the gate; and as long as it is not
canceled and the runner answers as the trials say, whatever else the session does, one of two
things holds. Either it is held there, where only so many turns of the checkup bring it to an
end, of which the next can be taken; or its report was told, which is that of the trials. Then
the run is rejected with it where the policy has something against the trials, and goes on
with it otherwise. -/
theorem Follows.gate_decides {comp : Composition} {opts : CallOptions} {stage : BuildStage}
    (h : Follows e is s deeds) (hr : (requests is)[k]? = some (.orchestrate comp opts))
    (hc : s.calls[k]? = some c) (hphase : c.phase = .building (some o) stage)
    (hcanceled : c.canceled = false) (hover : stage.isOver = true)
    (houtcome : stage.outcome false = .ok builds)
    (henabled : o.policy.enabled = true) (hhealth : o.runner.health = some (trials.map Trial.item))
    (hfresh : s.checkup? o.runner.id = some (.ofItems (trials.map Trial.item))) :
    ∃ s₁ fx, s.step e (.call k .proceed) = some (s₁, fx) ∧
      ∀ js t more, Tries e trials k o.runner.id s₁ js t more →
        ((∃ c, t.calls[k]? = some c ∧ c.phase = .gated o builds) ∧
          js.countP (Input.isTurnOf o.runner.id) ≤ 4 * trials.length + 2 ∧
          ∃ a, Admits trials k o.runner.id t (.checkup o.runner.id a) ∧
            (t.step e (.checkup o.runner.id a)).isSome) ∨
        Settled trials k o builds t more := by
  obtain ⟨s₁, fx, hstep, hheld⟩ := h.held hr hc hphase hcanceled hover houtcome henabled
    (by rw [hhealth]; rfl) hfresh
  refine ⟨s₁, fx, hstep, fun js t more htries => ?_⟩
  rcases htries.held_or_settled hheld with hheld | hsettled
  · left
    obtain ⟨c', hc', hphase', -⟩ := hheld.call
    obtain ⟨hbound, hgoes⟩ := hheld.goesOn (e := e)
    exact ⟨⟨c', hc', hphase'⟩, hbound, hgoes⟩
  · exact .inr hsettled

end Session

/-! ## A fix that fails

The runner has no directory, and it cannot be made. -/

namespace Session

namespace Unfixed

open Call.Shortfall (builder composition)

def trials : List Trial :=
  [⟨"user", .ok ⟨true, "known"⟩, none⟩,
    ⟨"dir", .ok ⟨false, "gone"⟩, some (.error ⟨"denied", ["no access"]⟩)⟩]

def runner : Runner := { Call.Shortfall.runner with health := some (trials.map Trial.item) }

def engine : Engine := ⟨⟨[builder], [runner]⟩, .standard, ⟨"/home"⟩⟩

def order : RunOrder := ⟨Call.Shortfall.valid, runner, .standard⟩

def stage : BuildStage := .ofPlan builder.id "plan" "/home/plans/plan" []

def begun : Input := .start "run" false (.orchestrate composition ⟨none, none, false⟩)

def inputs : List Input :=
  [.checkup runner.id .turn, .checkup runner.id .invoke,
    .checkup runner.id (.checked (.ok ⟨true, "known"⟩)), .checkup runner.id .invoke,
    .checkup runner.id (.checked (.ok ⟨false, "gone"⟩)), .checkup runner.id .invoke,
    .checkup runner.id (.fixed (.error ⟨"denied", ["no access"]⟩))]

/-- The session with its call in a phase, and its checkup. -/
def session (phase : CallPhase) (ch : Checkup) : Session :=
  ⟨.empty, [(runner.id, ch)], [Call.opened "run" false false phase]⟩

theorem follows : Follows engine [begun]
    (session (.building (some order) stage) (.ofItems (trials.map Trial.item))) [] :=
  .next .start rfl

def report : HealthReport :=
  ⟨[⟨"user", .ok, "known"⟩, ⟨"dir", .failed, "gone"⟩],
    [⟨"dir", .failed, "denied; error: no access"⟩]⟩

/-- The session with its call at the gate. -/
def gated : Session :=
  session (.gated order []) ⟨trials.map Trial.item, .unbegun, [(0, true)]⟩

theorem tries : ∃ t deeds, Tries engine trials 0 runner.id gated inputs t deeds ∧
    ∀ c, t.calls[0]? = some c → c.phase ≠ .gated order [] := by
  have h₀ : Tries engine trials 0 runner.id gated [] gated [] := .refl
  have h₁ := h₀.concat (i := .checkup runner.id .turn) (fun _ _ _ => trivial) rfl
  have h₂ := h₁.concat (i := .checkup runner.id .invoke) (fun _ _ _ => trivial) rfl
  have h₃ := h₂.concat (i := .checkup runner.id (.checked (.ok ⟨true, "known"⟩)))
    (admits_checkup rfl ⟨0, _, rfl, rfl, rfl⟩) rfl
  have h₄ := h₃.concat (i := .checkup runner.id .invoke) (fun _ _ _ => trivial) rfl
  have h₅ := h₄.concat (i := .checkup runner.id (.checked (.ok ⟨false, "gone"⟩)))
    (admits_checkup rfl ⟨1, _, rfl, rfl, rfl⟩) rfl
  have h₆ := h₅.concat (i := .checkup runner.id .invoke) (fun _ _ _ => trivial) rfl
  have h₇ := h₆.concat (i := .checkup runner.id (.fixed (.error ⟨"denied", ["no access"]⟩)))
    (admits_checkup rfl ⟨1, _, rfl, rfl, rfl⟩) rfl
  refine ⟨_, _, h₇, fun c hc hphase => ?_⟩
  cases hc
  cases hphase

end Unfixed

/-- The run is rejected with the report, for the fix that failed. -/
theorem gate_decides_of_unfixed : ∃ t deeds c,
    Tries Unfixed.engine Unfixed.trials 0 Unfixed.runner.id Unfixed.gated Unfixed.inputs t deeds ∧
      t.calls[0]? = some c ∧ c.phase =
        .finished (.error (.rejected "healthcheck fixes failed; aborting" Unfixed.report)) := by
  obtain ⟨t, deeds, htries, hleft⟩ := Unfixed.tries
  have hhealth : Unfixed.runner.health = some (Unfixed.trials.map Trial.item) := rfl
  obtain ⟨s₁, fx, hstep, hall⟩ := Unfixed.follows.gate_decides (k := 0)
    rfl rfl rfl rfl rfl rfl rfl hhealth rfl
  obtain rfl : Unfixed.gated = s₁ := congrArg Prod.fst (Option.some.inj hstep)
  rcases hall _ _ _ htries with ⟨⟨c, hc, hphase⟩, -⟩ | ⟨⟨c, hc, hjudged⟩, -⟩
  · exact absurd hphase (hleft c hc)
  · have hobjects : Unfixed.order.policy.Objects Unfixed.trials .failedFixes :=
      ⟨rfl, rfl, _, List.mem_cons_of_mem _ (List.mem_cons_self ..), ⟨_, rfl⟩, _, rfl⟩
    obtain ⟨reason, hreason, hphase⟩ := hjudged.rejected ⟨_, hobjects⟩
    refine ⟨t, deeds, c, htries, hc, ?_⟩
    cases reason with
    | failedFixes => exact hphase
    | abortedChecks => cases hreason.1
    | failedChecks => cases hreason.1

end Session

end Conductor