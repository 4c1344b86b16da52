import Conductor.Engine.Service
import Conductor.Proofs.Engine.Cleanup
import Conductor.Proofs.Engine.Examinations
import Conductor.Proofs.Health.Encoding
import Conductor.Proofs.Selector
/-!
# Engine — the health service answers

The body of a request is refused, or it asks for the health of a runner that can be examined
(`HealthQuery.asks_of_not_refused`). What is refused has its response at once, and nothing is
done for it. Otherwise a call begins that waits for the checkup of the runner
(`Session.Waits`). A step of the session leaves it waiting, or tells it the result that the
checkup has (`Waits.step`): only the checkup of its runner knows of the call, and that
answers it once. While the call waits the checkup goes on, and it has only so many turns.

The checkup may have had its result before the request came, from whoever asked first. Then
it is this result that the response is made of, a report or an error.
-/

namespace Conductor

/-! ## Bodies -/

namespace HealthQuery

/-- What a body makes happen in a session: a call begins, if the body is understood. -/
def opening (runId : String) (canceled : Bool) (body : List UInt8) : List Session.Input :=
  match ofBody body with
  | .ok q => [.start runId canceled q.request]
  | .error _ => []

/-- **A body is refused**: it is no request, its runner is no selector, there is no such runner,
or the runner cannot be examined. -/
inductive Refused (e : Engine) (body : List UInt8) : Prop
  | undecodable {error : Json.DecodeError} :
    Json.decodeText HealthRequest.decode body = .error error → Refused e body
  | badRunner {r : HealthRequest} {error : SelectorError} :
    Json.decodeText HealthRequest.decode body = .ok r → Selector.parse r.runner = .error error →
      Refused e body
  | unknown {r : HealthRequest} {runner : Selector} :
    Json.decodeText HealthRequest.decode body = .ok r → Selector.parse r.runner = .ok runner →
      (∀ x ∈ e.registry.runners, x.id ≠ runner) → Refused e body
  | unexamined {r : HealthRequest} {runner : Selector} {x : Runner} :
    Json.decodeText HealthRequest.decode body = .ok r → Selector.parse r.runner = .ok runner →
      e.registry.runner runner = .ok x → x.health = none → Refused e body

/-- **A body asks for the health** of a registered runner with these items. -/
structure Asks (e : Engine) (body : List UInt8) (x : Runner) (items : List HealthItem)
    (fix : Bool) : Prop where
  body : ∃ runner, Json.decodeText HealthRequest.decode body = .ok ⟨runner, fix⟩ ∧
    Selector.parse runner = .ok x.id
  registered : e.registry.runner x.id = .ok x
  items : x.health = some items

variable {e : Engine} {body : List UInt8} {x : Runner} {items : List HealthItem} {fix : Bool}
  {r : HealthRequest} {runner : Selector}

/-- A runner that is registered is the first with its name. -/
theorem find?_of_runner (h : e.registry.runner runner = .ok x) :
    e.registry.runners.find? (fun y => y.id = runner) = some x := by
  unfold Registry.runner at h
  split at h
  · rename_i y hfound
    cases h
    exact hfound
  · cases h

theorem runner_eq_ok (h : e.registry.runner runner = .ok x) :
    x ∈ e.registry.runners ∧ x.id = runner :=
  ⟨List.mem_of_find?_eq_some (find?_of_runner h),
    by simpa using List.find?_some (find?_of_runner h)⟩

theorem runner_eq_error {error : UnknownSelector} :
    e.registry.runner runner = .error error ↔
      error = ⟨.runner, runner⟩ ∧ ∀ x ∈ e.registry.runners, x.id ≠ runner := by
  unfold Registry.runner
  split
  · rename_i y hfound
    have hy := List.mem_of_find?_eq_some hfound
    have hid : y.id = runner := by simpa using List.find?_some hfound
    exact ⟨nofun, fun h => absurd hid (h.2 y hy)⟩
  · rename_i hnone
    rw [Except.error.injEq, eq_comm]
    exact (and_iff_left fun x hx => by simpa using List.find?_eq_none.1 hnone x hx).symm

/-- **A body that is not refused asks.** -/
theorem asks_of_not_refused (h : ¬ Refused e body) : ∃ x items fix, Asks e body x items fix := by
  cases hbody : Json.decodeText HealthRequest.decode body with
  | error error => exact absurd (.undecodable hbody) h
  | ok r =>
    cases hparse : Selector.parse r.runner with
    | error error => exact absurd (.badRunner hbody hparse) h
    | ok runner =>
      cases hrunner : e.registry.runner runner with
      | error error => exact absurd (.unknown hbody hparse (runner_eq_error.1 hrunner).2) h
      | ok x =>
        obtain ⟨-, rfl⟩ := runner_eq_ok hrunner
        cases hhealth : x.health with
        | none => exact absurd (.unexamined hbody hparse hrunner hhealth) h
        | some items => exact ⟨x, items, r.fix, ⟨r.runner, hbody, hparse⟩, hrunner, hhealth⟩

/-- and no other does. -/
theorem Asks.not_refused (h : Asks e body x items fix) : ¬ Refused e body := by
  obtain ⟨name, hbody, hparse⟩ := h.body
  intro hrefused
  cases hrefused with
  | undecodable hbody' => cases hbody.symm.trans hbody'
  | badRunner hbody' hparse' =>
    cases hbody.symm.trans hbody'
    cases hparse.symm.trans hparse'
  | unknown hbody' hparse' hnone =>
    cases hbody.symm.trans hbody'
    cases hparse.symm.trans hparse'
    exact hnone x (runner_eq_ok h.registered).1 rfl
  | unexamined hbody' hparse' hx hhealth =>
    cases hbody.symm.trans hbody'
    cases hparse.symm.trans hparse'
    cases h.registered.symm.trans hx
    cases h.items.symm.trans hhealth

/-- What is asked is determined by the body. -/
theorem Asks.unique {y : Runner} {items' : List HealthItem} {fix' : Bool}
    (h : Asks e body x items fix) (h' : Asks e body y items' fix') :
    x = y ∧ items = items' ∧ fix = fix' := by
  obtain ⟨name, hbody, hparse⟩ := h.body
  obtain ⟨name', hbody', hparse'⟩ := h'.body
  cases hbody.symm.trans hbody'
  have hid : x.id = y.id := Except.ok.inj (hparse.symm.trans hparse')
  obtain rfl : x = y := Except.ok.inj (h.registered.symm.trans (hid ▸ h'.registered))
  exact ⟨rfl, Option.some.inj (h.items.symm.trans h'.items), rfl⟩

/-- A request that is written down asks. -/
theorem asks_of_request (hx : e.registry.runner x.id = .ok x) (hitems : x.health = some items)
    (fix : Bool) :
    Asks e (Text.Utf8.ofString (HealthRequest.toJson ⟨x.id.text, fix⟩).text) x items fix :=
  ⟨⟨_, HealthRequest.decodeText_toJson _, Selector.parse_eq_ok_iff.2 rfl⟩, hx, hitems⟩

/-- A body that is decoded, with a runner that is a selector, is a query. -/
theorem ofBody_eq_ok (hbody : Json.decodeText HealthRequest.decode body = .ok r)
    (hparse : Selector.parse r.runner = .ok runner) : ofBody body = .ok ⟨runner, r.fix⟩ := by
  simp only [ofBody, hbody, hparse, Except.mapError, bind, Except.bind, pure, Except.pure]

theorem Asks.ofBody_eq (h : Asks e body x items fix) : ofBody body = .ok ⟨x.id, fix⟩ := by
  obtain ⟨name, hbody, hparse⟩ := h.body
  exact ofBody_eq_ok hbody hparse

/-- The call of a body that asks. -/
theorem Asks.opening_eq (h : Asks e body x items fix) (runId : String) (canceled : Bool) :
    opening runId canceled body = [.start runId canceled (.checkHealth x.id fix)] := by
  rw [opening, h.ofBody_eq]
  rfl

end HealthQuery

/-! ## The call -/

namespace Call

/-- The result of a call that was told the result of a checkup. -/
def told : HealthResult → Except OrchestrationError Answer
  | .ok report => .ok (.health (some report))
  | .error error => .error (.healthcheck error)

variable {e : Engine} {l l' : Ledger} {c c' : Call} {j : CallInput} {fx : List Effect}
  {runner : Selector}

/-- A call that waits for the health of a runner, and for nothing more, ends with it. -/
theorem Step.examined {r : HealthResult} (h : Step e l c (.examined r) l' c' fx)
    (hphase : c.phase = .examining runner) :
    (∀ x ∈ fx, x.IsQuiet) ∧ c'.phase = .finished (told r) := by
  cases h with
  | pass h => rw [hphase] at h; cases h
  | @healthy other report _ => exact ⟨quiet_events [.healthcheckEvaluated other report], rfl⟩
  | unhealthy _ => exact ⟨by simp, rfl⟩

/-- It waits on or is told. -/
theorem Step.examining (h : Step e l c j l' c' fx) (hphase : c.phase = .examining runner) :
    (∀ x ∈ fx, x.IsQuiet) ∧
      (c'.phase = .examining runner ∨ ∃ r, j = .examined r ∧ c'.phase = .finished (told r)) := by
  obtain ⟨-, hbeside | ⟨r, rfl⟩⟩ := h.at_rest (by rw [hphase]; trivial)
  · exact ⟨hbeside.quiet, .inl (hbeside.phase_eq.trans hphase)⟩
  · exact ⟨(h.examined hphase).1, .inr ⟨r, rfl, (h.examined hphase).2⟩⟩

/-- **A call is about the health of one runner**: it waits for it or has a result, and of all
that it has done no effect was about another one. -/
structure About (runner : Selector) (c : Call) (fx : List Effect) : Prop where
  phase : c.phase = .examining runner ∨ ∃ r, c.phase = .finished r
  asks : ∀ other fix, .examine other fix ∈ fx → other = runner

/-- More effects that ask for nothing do not matter. -/
theorem About.append {before : List Effect} (h : About runner c before)
    (hphase : c'.phase = .examining runner ∨ ∃ r, c'.phase = .finished r)
    (hfx : ∀ x ∈ fx, x.IsQuiet) : About runner c' (before ++ fx) := by
  refine ⟨hphase, fun other fix hmem => ?_⟩
  rcases List.mem_append.1 hmem with hmem | hmem
  · exact h.asks other fix hmem
  · cases (hfx _ hmem).2.1

/-- A call stays with its runner. -/
theorem Step.about {before : List Effect} (h : Step e l c j l' c' fx)
    (habout : About runner c before) : About runner c' (before ++ fx) := by
  rcases habout.phase with hphase | ⟨r, hphase⟩
  · obtain ⟨hfx, hwaits | ⟨r, -, htold⟩⟩ := h.examining hphase
    · exact habout.append (.inl hwaits) hfx
    · exact habout.append (.inr ⟨_, htold⟩) hfx
  · exact habout.append (.inr ⟨r, (h.finished hphase).1⟩) (h.of_finished hphase).2.quiet

theorem about_start {x : Runner} (hx : e.registry.runner x.id = .ok x) (runId : String)
    (canceled fix : Bool) :
    About x.id (start e runId canceled (.checkHealth x.id fix)).1
      (start e runId canceled (.checkHealth x.id fix)).2 := by
  simp only [start, beginCheck, hx]
  split
  · exact ⟨.inl rfl, by simp⟩
  · exact ⟨.inr ⟨_, rfl⟩, by simp⟩

end Call

/-! ## The session -/

namespace Session

open HealthQuery

variable {e : Engine} {s t : Session} {i : Input} {is js : List Input} {deeds more : List Deed}
  {k n : Nat} {body : List UInt8} {x : Runner} {items : List HealthItem} {fix : Bool}
  {runner : Selector} {ch : Checkup}

/-- The response to a body, once there is one: at once if the body is not understood, and when
the call that it has made has its result otherwise. -/
def response? (s : Session) (k : Nat) (body : List UInt8) : Option Response :=
  match ofBody body with
  | .error fault => some (.ofFault fault)
  | .ok q => (s.calls[k]?.bind Call.healthResult?).map (.ofResult q.runner)

/-- The checkup of a runner goes on without a new call and without a cancellation, whatever the
check or the fix it waits for answers. -/
inductive Goes (e : Engine) (s : Session) (runner : Selector) : Prop
  | turn (h : (s.step e (.checkup runner .turn)).isSome)
  | invoke (h : (s.step e (.checkup runner .invoke)).isSome)
  | checked (h : ∀ r, (s.step e (.checkup runner (.checked r))).isSome)
  | fixed (h : ∀ r, (s.step e (.checkup runner (.fixed r))).isSome)

theorem goes_of_goes (hch : s.checkup? runner = some ch) (h : ch.Goes) : s.Goes e runner := by
  cases h with
  | turn h => exact .turn (isSome_step_checkup hch rfl h)
  | invoke h => exact .invoke (isSome_step_checkup hch rfl h)
  | checked h => exact .checked fun r => isSome_step_checkup hch rfl (h r)
  | fixed h => exact .fixed fun r => isSome_step_checkup hch rfl (h r)

/-- **A call waits for the health of a runner**: it has asked, and has no answer. -/
structure Waits (k : Nat) (runner : Selector) (items : List HealthItem) (s : Session) : Prop where
  call : ∃ c, s.calls[k]? = some c ∧ c.phase = .examining runner
  asked : ∃ ch as rs, s.checkup? runner = some ch ∧
    Checkup.Follows (.ofItems items) as ch rs ∧ (∃ fix, (k, fix) ∈ Checkup.asks as) ∧
      ∀ r, .answer k r ∉ rs

/-- **A call has been told the health of a runner**: its result is the one of the checkup. -/
structure Answered (k : Nat) (runner : Selector) (result : HealthResult) (s : Session) : Prop where
  call : ∃ c, s.calls[k]? = some c ∧ c.phase = .finished (Call.told result)
  settled : ∃ ch, s.checkup? runner = some ch ∧ ch.progress = .settled result

/-- What was told stands. -/
theorem Answered.step {result : HealthResult} (h : Answered k runner result s)
    (hstep : s.step e i = some (t, more)) : Answered k runner result t := by
  obtain ⟨⟨c, hc, hphase⟩, ⟨ch, hch, hsettled⟩⟩ := h
  exact ⟨(Move.of_step hstep).1.finished hc hphase, settled_step hstep hch hsettled⟩

namespace Waits

/-- As long as the checkup does not answer the call, it has asked and has no answer. -/
theorem asked_step (h : Waits k runner items s) (hstep : s.step e i = some (t, more))
    (hnone : ∀ a ch d replies, i = .checkup runner a → s.checkup? runner = some ch →
      ch.act a = some (d, replies) → ∀ r, .answer k r ∉ replies) :
    ∃ ch as rs, t.checkup? runner = some ch ∧ Checkup.Follows (.ofItems items) as ch rs ∧
      (∃ fix, (k, fix) ∈ Checkup.asks as) ∧ ∀ r, .answer k r ∉ rs := by
  obtain ⟨ch, as, rs, hch, hfollows, ⟨fix, hasked⟩, hunanswered⟩ := h.asked
  obtain ⟨d, replies, ht, hcase⟩ := checkup?_of_step hstep hch
  obtain ⟨as', rs', hfollows', hasked', hunanswered'⟩ : ∃ as' rs',
      Checkup.Follows (.ofItems items) as' d rs' ∧ (k, fix) ∈ Checkup.asks as' ∧
        ∀ r, .answer k r ∉ rs' := by
    rcases hcase with ⟨-, rfl, -⟩ | ⟨a, rfl, hact, -⟩
    · exact ⟨as, rs, hfollows, hasked, hunanswered⟩
    · refine ⟨as ++ [a], _, hfollows.concat hact, ?_, fun r hr => ?_⟩
      · rw [Checkup.asks, List.filterMap_append]
        exact List.mem_append_left _ hasked
      · rcases List.mem_append.1 hr with hr | hr
        · exact hunanswered r hr
        · exact hnone a ch d replies rfl hch hact r hr
  refine ⟨_, _, _, ht, hfollows'.queue _, ⟨fix, ?_⟩, hunanswered'⟩
  rw [Checkup.asks_queue]
  exact List.mem_append_left _ hasked'

/-- A checkup that acts and does not answer the call leaves it waiting. -/
theorem acted {a : Checkup.Action} {d : Checkup} {replies : List Checkup.Reply}
    {other : Selector} (h : Waits k runner items s)
    (hstep : s.step e (.checkup other a) = some (t, more)) (hch : s.checkup? other = some ch)
    (hact : ch.act a = some (d, replies)) (hnone : ∀ r, .answer k r ∉ replies)
    (hcalls : t.calls[k]? = s.calls[k]?) : Waits k runner items t := by
  refine ⟨hcalls ▸ h.call, h.asked_step hstep ?_⟩
  rintro a' ch' d' replies' heq hch' hact'
  cases heq
  obtain rfl : ch = ch' := Option.some.inj (hch.symm.trans hch')
  cases hact.symm.trans hact'
  exact hnone

/-- What the call does itself leaves it waiting. -/
theorem stepCall {j : CallInput} (h : Waits k runner items s)
    (hj : ∀ r, j ≠ .examined r) (hstep : s.step e (.call k j) = some (t, more)) :
    Waits k runner items t := by
  obtain ⟨c, hc, hphase⟩ := h.call
  obtain ⟨c₀, l', c', fx, hc₀, hcall, -, -, hcalls, -⟩ := stepCall_cases hstep
  obtain rfl : c₀ = c := Option.some.inj (hc₀.symm.trans hc)
  refine ⟨⟨c', ?_, ?_⟩, h.asked_step hstep (by simp)⟩
  · rw [hcalls, List.getElem?_set_self (List.getElem?_eq_some_iff.1 hc).1]
  · obtain ⟨-, hwaits | ⟨r, hr, -⟩⟩ := (Call.Step.of_step hcall).examining hphase
    · exact hwaits
    · exact absurd hr (hj r)

/-- **The call is told** when its checkup answers it. -/
theorem told {a : Checkup.Action} {d : Checkup} {r : HealthResult}
    (h : Waits k runner items s) (hch : s.checkup? runner = some ch)
    (hact : ch.act a = some (d, [.answer k r]))
    (htold : (s.putCheckup runner d).stepCall e k (.examined r) = some (t, more)) :
    Answered k runner r t := by
  obtain ⟨c, hc, hphase⟩ := h.call
  obtain ⟨ch', as, rs, hch', hfollows, -, -⟩ := h.asked
  obtain rfl : ch = ch' := Option.some.inj (hch.symm.trans hch')
  obtain ⟨c₀, l', c', fx, hc₀, hcall, -, -, hcalls, -⟩ := stepCall_cases htold
  obtain rfl : c₀ = c := Option.some.inj (hc₀.symm.trans hc)
  have hphase' := ((Call.Step.of_step hcall).examined hphase).2
  refine ⟨⟨c', ?_, hphase'⟩, ⟨d.queue (wishes runner more), ?_, ?_⟩⟩
  · rw [hcalls]
    exact List.getElem?_set_self (List.getElem?_eq_some_iff.1 hc).1
  · rw [checkup?_stepCall htold, checkup?_putCheckup hch, Option.map_some]
  · exact (hfollows.concat hact).settled_of_answer (k := k) (by simp)

/-- It can be told. -/
theorem hears (h : Waits k runner items s) (d : Checkup) (r : HealthResult) :
    (s.putCheckup runner d).stepCall e k (.examined r) ≠ none := by
  obtain ⟨c, hc, hphase⟩ := h.call
  cases r <;> simp [Session.stepCall, putCheckup, hc, Call.step, hphase]

/-- **The step lemma.** -/
theorem step (h : Waits k runner items s) (hfollows : Follows e is s deeds)
    (honly : ∀ other fix, ⟨k, .examine other fix⟩ ∈ deeds → other = runner)
    (hi : ∀ r, i ≠ .call k (.examined r)) (hstep : s.step e i = some (t, more)) :
    Waits k runner items t ∨ ∃ result, Answered k runner result t := by
  obtain ⟨c, hc, hphase⟩ := h.call
  have hlt := (List.getElem?_eq_some_iff.1 hc).1
  cases i with
  | start runId canceled r =>
    left
    refine ⟨⟨c, ?_, hphase⟩, h.asked_step hstep (by simp)⟩
    cases (Move.of_step hstep).1 with
    | begins _ _ _ _ hcalls => rw [hcalls, List.getElem?_append_left hlt, hc]
    | steps hnot => cases hnot
    | attends hnot => cases hnot
    | rests hnot => cases hnot
  | call n j =>
    left
    by_cases hn : n = k
    · subst hn
      exact h.stepCall (fun r hr => hi r (by rw [hr])) hstep
    · obtain ⟨_, _, c', _, _, _, _, _, hcalls, _⟩ := stepCall_cases hstep
      exact ⟨⟨c, by rw [hcalls, List.getElem?_set_ne hn, hc], hphase⟩,
        h.asked_step hstep (by simp)⟩
  | checkup other a =>
    obtain ⟨ch, hch, -, hcase⟩ := stepCheckup_cases hstep
    -- only the checkup of the runner can answer the call
    have hother : ∀ {d r}, ch.act a = some (d, [.answer k r]) → other = runner := by
      intro d r hact
      have hseeks := Checkup.seeks_of_answer hact (List.mem_singleton_self _)
      obtain ⟨fix, hfix⟩ := hfollows.asked_of_seeks hch hseeks
      exact honly other fix hfix
    cases hcase with
    | rests hact => exact .inl (h.acted hstep hch hact (by simp) rfl)
    | attends hact _ => exact .inl (h.acted hstep hch hact (by simp) rfl)
    | @tells d n r _ _ hact htold =>
      by_cases hn : n = k
      · subst hn
        obtain rfl := hother hact
        exact .inr ⟨r, h.told hch hact htold⟩
      · obtain ⟨_, _, c', _, _, _, _, _, hcalls, _⟩ := stepCall_cases htold
        refine .inl (h.acted hstep hch hact (by simp [Ne.symm hn]) ?_)
        rw [hcalls, List.getElem?_set_ne hn]
        rfl
    | @unheard d n r hact hsilent =>
      by_cases hn : n = k
      · subst hn
        obtain rfl := hother hact
        exact absurd hsilent (h.hears d r)
      · exact .inl (h.acted hstep hch hact (by simp [Ne.symm hn]) rfl)

/-- A call that waits is not forgotten. -/
theorem goes (h : Waits k runner items s) : s.Goes e runner := by
  obtain ⟨ch, as, rs, hch, hfollows, ⟨fix, hasked⟩, hunanswered⟩ := h.asked
  have hpending := hfollows.mem_pending hasked hunanswered
  obtain ⟨-, -, -, -, -, -, -, -, hgoes, -⟩ := hfollows.evaluated_once
  exact goes_of_goes hch (hgoes.resolve_left (List.ne_nil_of_mem hpending))

end Waits

/-! ## Histories -/

/-- The checkup of a runner in the beginning. -/
theorem checkup?_ofEngine (hx : e.registry.runner x.id = .ok x) (hitems : x.health = some items) :
    (ofEngine e).checkup? x.id = some (.ofItems items) := by
  -- the first runner with the name can be examined, so its checkup is the first with the name
  obtain ⟨-, before, behind, hrunners, hbefore⟩ :=
    List.find?_eq_some_iff_append.1 (find?_of_runner hx)
  have hfirst : e.registry.runners.find? (fun y =>
      (y.health.map fun items => (y.id, Checkup.ofItems items)).any (·.1 = x.id)) = some x := by
    refine List.find?_eq_some_iff_append.2 ⟨by simp [hitems], before, behind, hrunners, ?_⟩
    intro y hy
    have hid : y.id ≠ x.id := by simpa using hbefore y hy
    cases y.health <;> simp [hid]
  rw [checkup?, ofEngine, List.find?_filterMap, hfirst, Option.bind_some, hitems]
  rfl

/-- **A call that checks health asks for one runner**, at most. -/
theorem Follows.examines_only {c : Call} (h : Follows e is s deeds)
    (hr : (requests is)[k]? = some (.checkHealth x.id fix))
    (hx : e.registry.runner x.id = .ok x) (hc : s.calls[k]? = some c) {other : Selector}
    {fix' : Bool} (hmem : ⟨k, .examine other fix'⟩ ∈ deeds) : other = x.id := by
  have habout : Call.About x.id c (deedsOf k deeds) := by
    refine h.along (Q := fun _ c fx => Call.About x.id c fx) hc hr
      (fun _ runId canceled => Call.about_start hx runId canceled fix) ?_
    intro is s deeds i c c' fx _ _ habout hturn
    cases hturn with
    | own hcall _ => exact (Call.Step.of_step hcall).about habout
    | attended =>
      refine ⟨habout.phase, fun other fix' hmem => habout.asks other fix' ?_⟩
      simpa using hmem
    | idle => simpa using habout
  exact habout.asks other fix' (mem_deedsOf.2 hmem)

/-! ## Requests -/

/-- A query is the request of its call. -/
theorem request_opening (h : Follows e is s deeds) (runId : String) (canceled : Bool)
    (r : Request) (js : List Input) :
    (requests (is ++ [.start runId canceled r] ++ js))[s.calls.length]? = some r := by
  rw [h.length_calls]
  simp [requests, Input.request?]

/-- A call that begins is one of the session. -/
theorem follows_start (h : Follows e is s deeds) (runId : String) (canceled : Bool)
    (r : Request) : ∃ t,
      s.step e (.start runId canceled r) =
        some (t, (Call.start e runId canceled r).2.map (⟨s.calls.length, ·⟩)) ∧
      Follows e (is ++ [.start runId canceled r]) t
        (deeds ++ (Call.start e runId canceled r).2.map (⟨s.calls.length, ·⟩)) ∧
      t.calls[s.calls.length]? = some (Call.start e runId canceled r).1 ∧
      ((Call.start e runId canceled r).2 = [] → t.checkups = s.checkups) := by
  have hstep : s.step e (.start runId canceled r) = some
      (({ s with calls := s.calls ++ [(Call.start e runId canceled r).1] } : Session).accept
        s.calls.length (Call.start e runId canceled r).1 (Call.start e runId canceled r).2) := rfl
  have hcalls := (accept_keeps { s with calls := s.calls ++ [(Call.start e runId canceled r).1] }
    s.calls.length (Call.start e runId canceled r).1 (Call.start e runId canceled r).2).2.1
  refine ⟨_, hstep, h.next hstep, ?_, fun hnil => ?_⟩
  · exact (congrArg (·[s.calls.length]?) hcalls).trans (List.getElem?_set_self (by simp))
  · rw [hnil]
    rfl

/-- **The call of a body that asks** waits for the health of the runner. -/
theorem waits_of_asks (h : Follows e is s deeds) (hasks : Asks e body x items fix)
    (runId : String) (canceled : Bool) :
    ∃ t, Follows e (is ++ [.start runId canceled (.checkHealth x.id fix)]) t
        (deeds ++ [⟨s.calls.length, .examine x.id fix⟩]) ∧
      Waits s.calls.length x.id items t := by
  obtain ⟨t, hstep, hfollows, hc, -⟩ := follows_start h runId canceled (.checkHealth x.id fix)
  have hstart : Call.start e runId canceled (.checkHealth x.id fix) =
      (Call.opened runId canceled false (.examining x.id), [.examine x.id fix]) := by
    simp [Call.start, Call.beginCheck, hasks.registered, hasks.items]
  rw [hstart] at hstep hfollows hc
  refine ⟨t, hfollows, ⟨_, hc, rfl⟩, ?_⟩
  obtain ⟨ch, as, rs, hch, hhistory, hwishes, -⟩ :=
    h.history (checkup?_ofEngine hasks.registered hasks.items)
  refine ⟨_, _, rs, ?_, hhistory.queue [(s.calls.length, fix)], ⟨fix, ?_⟩, fun r hr => ?_⟩
  · rw [checkup?_step hstep rfl, hch, Option.map_some]
    simp [wishes]
  · rw [Checkup.asks_queue]
    exact List.mem_append_right _ (List.mem_singleton_self _)
  · -- an answer there would be one to a call that had asked before this one began
    obtain ⟨fix', hasked⟩ := hhistory.asked_of_answer hr
    have hlt := h.lt_of_mem (mem_wishes.1 (hwishes ▸ hasked))
    exact absurd hlt (Nat.lt_irrefl _)

/-- **The run lemma.** -/
theorem Waits.run {runId : String} {canceled : Bool} (h : Follows e is s deeds)
    (hasks : Asks e body x items fix)
    (h' : Follows e (is ++ [.start runId canceled (.checkHealth x.id fix)] ++ js) t more)
    (hjs : ∀ r, .call s.calls.length (.examined r) ∉ js) :
    Waits s.calls.length x.id items t ∨ ∃ result, Answered s.calls.length x.id result t := by
  induction js using List.reverseRecOn generalizing t more with
  | nil =>
    obtain ⟨t', hfollows, hwaits⟩ := waits_of_asks h hasks runId canceled
    rw [List.append_nil] at h'
    obtain ⟨rfl, -⟩ := h'.unique hfollows
    exact .inl hwaits
  | append_singleton js i ih =>
    rw [← List.append_assoc] at h'
    obtain ⟨u, before, _, hu, hstep, -⟩ := h'.of_append
    simp only [List.mem_append, List.mem_singleton, not_or] at hjs
    rcases ih hu fun r => (hjs r).1 with hwaits | ⟨result, hanswered⟩
    · obtain ⟨c, hc, -⟩ := hwaits.call
      refine hwaits.step hu (fun other fix' hmem => ?_) (fun r => Ne.symm (hjs r).2) hstep
      exact hu.examines_only (request_opening h runId canceled _ js) hasks.registered hc hmem
    · exact .inr ⟨result, hanswered.step hstep⟩

/-- A body that is not understood is answered without a call. -/
theorem answered_of_fault {fault : RequestFault} (h : Follows e is s deeds)
    (hfault : ofBody body = .error fault) (runId : String) (canceled : Bool) :
    ∃ t m, Follows e (is ++ opening runId canceled body) t deeds ∧ t.checkups = s.checkups ∧
      t.response? s.calls.length body = some (.refusal 400 m) := by
  refine ⟨s, fault.message, ?_, rfl, ?_⟩
  · rw [opening, hfault, List.append_nil]
    exact h
  · rw [response?, hfault]
    rfl

/-- A call that has its result when it begins, an error that is the caller's or no report, is
answered without an effect. -/
theorem answered_of_finished {q : HealthQuery} {r : Except OrchestrationError Answer}
    {m : String} (h : Follows e is s deeds) (hbody : ofBody body = .ok q) {runId : String}
    {canceled : Bool} (hstart : Call.start e runId canceled q.request =
      (Call.opened runId canceled false (.finished r), []))
    (hr : (Call.healthResult? (Call.opened runId canceled false (.finished r))).map
      (Response.ofResult q.runner) = some (.refusal 400 m)) :
    ∃ t m, Follows e (is ++ opening runId canceled body) t deeds ∧ t.checkups = s.checkups ∧
      t.response? s.calls.length body = some (.refusal 400 m) := by
  obtain ⟨t, -, hfollows, hc, hsame⟩ := follows_start h runId canceled q.request
  rw [hstart] at hfollows hc hsame
  refine ⟨t, m, ?_, hsame rfl, ?_⟩
  · simpa [opening, hbody] using hfollows
  · simpa only [response?, hbody, hc, Option.bind_some] using hr

/-- **A body that is refused** is answered at once, and nothing is done for it. -/
theorem answered_of_refused (h : Follows e is s deeds) (hrefused : Refused e body)
    (runId : String) (canceled : Bool) :
    ∃ t m, Follows e (is ++ opening runId canceled body) t deeds ∧ t.checkups = s.checkups ∧
      t.response? s.calls.length body = some (.refusal 400 m) := by
  cases hrefused with
  | @undecodable error hbody =>
    have hfault : ofBody body = .error (.undecodable error) := by
      simp only [ofBody, hbody, Except.mapError, bind, Except.bind]
    exact answered_of_fault h hfault runId canceled
  | @badRunner r error hbody hparse =>
    have hfault : ofBody body = .error (.badRunner error) := by
      simp only [ofBody, hbody, hparse, Except.mapError, bind, Except.bind]
    exact answered_of_fault h hfault runId canceled
  | @unknown r runner hbody hparse hnone =>
    have hmissing := (runner_eq_error (e := e)).2 ⟨rfl, hnone⟩
    refine answered_of_finished h (ofBody_eq_ok hbody hparse)
      (r := .error (.unknownSelector ⟨.runner, runner⟩)) ?_ rfl
    simp only [Call.start, HealthQuery.request, Call.beginCheck, hmissing]
  | unexamined hbody hparse hx hhealth =>
    refine answered_of_finished h (ofBody_eq_ok hbody hparse) (r := .ok (.health none)) ?_ rfl
    simp only [Call.start, HealthQuery.request, Call.beginCheck, hx, hhealth, Option.isSome_none,
      Bool.false_eq_true, if_false]

/-! ## Responses -/

/-- A call that waits has no response yet. -/
theorem Waits.response? (h : Waits k x.id items s) (hasks : Asks e body x items fix) :
    s.response? k body = none := by
  obtain ⟨c, hc, hphase⟩ := h.call
  rw [Session.response?, hasks.ofBody_eq]
  simp only [hc, Option.bind_some, Call.healthResult?, hphase, Option.map_none]

/-- **What was told is the response**: an error as one of ours, and a report as it is. -/
theorem Answered.response? {result : HealthResult} (h : Answered k x.id result s)
    (hasks : Asks e body x items fix) :
    (∀ error, result = .error error → s.response? k body =
      some (.refusal 500 (OrchestrationError.healthcheck error).message)) ∧
    ∀ report, result = .ok report → s.response? k body = some ⟨200, report.toJson⟩ := by
  obtain ⟨c, hc, hphase⟩ := h.call
  rw [Session.response?, hasks.ofBody_eq]
  constructor
  · rintro error rfl
    simp only [hc, Option.bind_some, Call.healthResult?, hphase, Call.told, Option.map_some,
      Response.ofResult]
  · rintro report rfl
    simp only [hc, Option.bind_some, Call.healthResult?, hphase, Call.told, Option.map_some,
      Response.ofResult]

/-- **Whatever is no report is a message.** -/
theorem body_of_refusal {response : Response} (h : s.response? k body = some response)
    (hstatus : response.status ≠ 200) : ∃ m, response.body = .object [("error", .string m)] := by
  unfold Session.response? at h
  split at h
  · cases h
    exact ⟨_, rfl⟩
  · obtain ⟨result, -, rfl⟩ := Option.map_eq_some_iff.1 h
    unfold Response.ofResult at hstatus ⊢
    split at hstatus
    · exact absurd rfl hstatus
    · exact ⟨_, rfl⟩
    · exact ⟨_, rfl⟩
    · exact ⟨_, rfl⟩

/-- **The health service answers.** Whatever was done before, and whoever else is served beside
it, a request that is refused is answered with 400 at once, and no check or fix is asked for.
Any other request makes one call for the health of the runner. It waits while the checkup of the
runner goes on, for no more turns than the bound says, and the checkup alone tells it the
result, which is the one that the checkup had before if it had one. An error is answered with
500, and a report, whatever it says, with 200 and itself, so that it can be read back. A
response that is no report is an object with an error in words, and nothing else. -/
theorem Follows.serves (h : Follows e is s deeds) (runId : String) (canceled : Bool)
    (body : List UInt8) :
    (Refused e body → ∃ t m, Follows e (is ++ opening runId canceled body) t deeds ∧
      t.checkups = s.checkups ∧ t.response? s.calls.length body = some (.refusal 400 m)) ∧
    (¬ Refused e body → ∃ x items fix, Asks e body x items fix ∧
      opening runId canceled body = [.start runId canceled (.checkHealth x.id fix)] ∧
      (∃ t, Follows e (is ++ opening runId canceled body) t
        (deeds ++ [⟨s.calls.length, .examine x.id fix⟩])) ∧
      ∀ js t all, Follows e (is ++ opening runId canceled body ++ js) t all →
        (∀ r, .call s.calls.length (.examined r) ∉ js) →
        (is ++ opening runId canceled body ++ js).countP (Input.isTurnOf x.id) ≤
          4 * items.length + 2 + (wishes x.id all).length ∧
        (t.response? s.calls.length body = none ∧ t.Goes e x.id ∨
          ∃ ch c result, t.checkup? x.id = some ch ∧ ch.progress = .settled result ∧
            t.calls[s.calls.length]? = some c ∧ c.phase = .finished (Call.told result) ∧
            (∀ ch₀ result₀, s.checkup? x.id = some ch₀ → ch₀.progress = .settled result₀ →
              result = result₀) ∧
            (∀ error, result = .error error → t.response? s.calls.length body =
              some (.refusal 500 (OrchestrationError.healthcheck error).message)) ∧
            ∀ report, result = .ok report →
              t.response? s.calls.length body = some ⟨200, report.toJson⟩ ∧
              Json.decodeValue HealthReport.decode report.toJson = .ok report ∧
              Json.decodeText HealthReport.decode (Text.Utf8.ofString report.toJson.text) =
                .ok report)) ∧
    ∀ t n response, response? t n body = some response → response.status ≠ 200 →
      ∃ m, response.body = .object [("error", .string m)] := by
  refine ⟨fun hrefused => answered_of_refused h hrefused runId canceled, fun hunrefused => ?_,
    fun t n response hresponse hstatus => body_of_refusal hresponse hstatus⟩
  obtain ⟨x, items, fix, hasks⟩ := asks_of_not_refused hunrefused
  have hopening := hasks.opening_eq runId canceled
  rw [hopening]
  obtain ⟨u, hu, -⟩ := waits_of_asks h hasks runId canceled
  refine ⟨x, items, fix, hasks, rfl, ⟨u, hu⟩, fun js t all ht hjs => ⟨?_, ?_⟩⟩
  · -- each turn of the checkup is an action in its history
    obtain ⟨ch, as, rs, -, hfollows, hwishes, hturns⟩ :=
      ht.history (checkup?_ofEngine hasks.registered hasks.items)
    obtain ⟨-, -, -, -, -, -, -, -, -, hbound⟩ := hfollows.evaluated_once
    rw [hturns, hwishes] at hbound
    omega
  · rcases Waits.run h hasks ht hjs with hwaits | ⟨result, hanswered⟩
    · exact .inl ⟨hwaits.response? hasks, hwaits.goes⟩
    obtain ⟨c, hc, hphase⟩ := hanswered.call
    obtain ⟨ch, hch, hsettled⟩ := hanswered.settled
    obtain ⟨herror, hreport⟩ := hanswered.response? hasks
    refine .inr ⟨ch, c, result, hch, hsettled, hc, hphase, ?_, herror, fun report hresult =>
      ⟨hreport report hresult, report.decodeValue_toJson, report.decodeText_toJson⟩⟩
    intro ch₀ result₀ hch₀ hsettled₀
    rw [List.append_assoc] at ht
    obtain ⟨ch', hch', hsettled'⟩ := h.settled_append hch₀ hsettled₀ ht
    obtain rfl : ch = ch' := Option.some.inj (hch.symm.trans hch')
    exact CheckupProgress.settled.inj (hsettled.symm.trans hsettled')

end Session

/-! ## An error that is remembered

The first call was canceled while the directory was looked at. -/

namespace Session

open HealthQuery

namespace Remembered

def runner : Runner := ⟨Local.runnerId, [], fun _ => .ok (), some [⟨"dir", true⟩]⟩

def engine : Engine := ⟨⟨[], [runner]⟩, .standard, ⟨"/home"⟩⟩

def body : List UInt8 :=
  Text.Utf8.ofString (HealthRequest.toJson ⟨runner.id.text, true⟩).text

theorem asks : Asks engine body runner [⟨"dir", true⟩] true := asks_of_request rfl rfl true

def earlier : List Input :=
  [.start "first" true (.checkHealth runner.id false), .checkup runner.id .turn,
    .checkup runner.id .invoke, .checkup runner.id .abandon]

/-- The session with its calls. -/
def session (calls : List Call) : Session :=
  ⟨.empty, [(runner.id, ⟨[⟨"dir", true⟩], .settled (.error .canceled), []⟩)], calls⟩

/-- A call that was told of the cancellation. -/
def told (runId : String) (canceled : Bool) : Call :=
  Call.opened runId canceled false (.finished (.error (.healthcheck .canceled)))

theorem follows : ∃ deeds, Follows engine earlier (session [told "first" true]) deeds :=
  ⟨_, .next (.next (.next (.next .start rfl) rfl) rfl) rfl⟩

theorem follows_turn : ∃ all, Follows engine
    (earlier ++ [.start "second" false (.checkHealth runner.id true)] ++
      [.checkup runner.id .turn])
    (session [told "first" true, told "second" false]) all := by
  obtain ⟨deeds, h⟩ := follows
  exact ⟨_, .next (.next h rfl) rfl⟩

end Remembered

/-- The second request is answered with the error of the first. -/
theorem serves_remembered : ∃ t all, Follows Remembered.engine
    (Remembered.earlier ++ opening "second" false Remembered.body ++
      [.checkup Remembered.runner.id .turn]) t all ∧
    t.response? 1 Remembered.body =
      some (.refusal 500 "healthcheck errored: healthcheck canceled before all checks ran") := by
  obtain ⟨deeds, hearlier⟩ := Remembered.follows
  obtain ⟨all, hturn⟩ := Remembered.follows_turn
  obtain ⟨-, hserves, -⟩ := hearlier.serves "second" false Remembered.body
  obtain ⟨x, items, fix, hasks, hopening, -, hall⟩ := hserves Remembered.asks.not_refused
  obtain ⟨rfl, -, rfl⟩ := Remembered.asks.unique hasks
  rw [← hopening] at hturn
  refine ⟨_, all, hturn, ?_⟩
  rcases (hall _ _ _ hturn (by simp)).2 with ⟨hnone, -⟩ |
    ⟨ch, c, result, -, -, -, -, hremembered, herror, -⟩
  · rw [response?, hasks.ofBody_eq] at hnone
    cases hnone
  · exact herror .canceled (hremembered _ _ rfl rfl)

end Session

end Conductor
