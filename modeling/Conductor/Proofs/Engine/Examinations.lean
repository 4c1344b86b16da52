import Conductor.Proofs.Engine.Session
import Conductor.Proofs.Health.Checkup
/-!
# Engine — the history of a checkup

The calls of a session share the checkups of their runners. What a step of a session is for
the checkup of a runner is said once: calls may join those that wait for it
(`Session.checkup?_step`), and if it is its turn it acts before that
(`Session.checkup?_turn`). So each checkup has a history of its own in that of the session
(`Session.Follows.history`), in which the calls that ask are those that have the effect
(`wishes`), and it answers only who has asked.
-/

namespace Conductor

namespace Checkup

variable {b c d : Checkup} {a : Action} {as : List Action} {rs more : List Reply} {k : Nat}
  {result : HealthResult} {items : List HealthItem} {xs ys : List (Nat × Bool)}

/-! ## Who is answered -/

/-- An evaluation that goes on answers nobody but its caller. -/
theorem answer_proceed {caller : Nat} {ev : Evaluation}
    (h : .answer k result ∈ (d.proceed caller ev).2) : k = caller := by
  unfold proceed at h
  split at h
  · cases h
  · cases List.mem_singleton.1 h
    rfl

/-- **Only who seeks an answer has one.** -/
theorem seeks_of_answer {r : Checkup × List Reply} (h : c.act a = some r)
    (hmem : .answer k result ∈ r.2) : k ∈ c.seekers := by
  have underway : ∀ {caller ev asked}, c.progress = .underway caller ev asked →
      caller ∈ c.seekers := fun hp => mem_seekers.2 (.inl (by rw [Session.callerOf, hp]))
  cases a with
  | ask caller fix =>
    cases h
    cases hmem
  | turn =>
    simp only [act] at h
    split at h
    · rename_i caller fix rest hwaiting hprogress
      cases h
      rw [answer_proceed hmem]
      exact mem_seekers.2 (.inr ⟨fix, by simp [hwaiting]⟩)
    · rename_i caller fix rest result' hwaiting hprogress
      cases h
      cases List.mem_singleton.1 hmem
      exact mem_seekers.2 (.inr ⟨fix, by simp [hwaiting]⟩)
    · cases h
  | invoke =>
    simp only [act] at h
    split at h
    · obtain ⟨n, -, rfl⟩ := Option.map_eq_some_iff.1 h
      cases List.mem_singleton.1 hmem
    · cases h
  | checked r' =>
    simp only [act] at h
    split at h
    · rename_i caller ev hprogress
      split at h
      · cases h
      · cases h
        rw [answer_proceed hmem]
        exact underway hprogress
    · cases h
  | fixed r' =>
    simp only [act] at h
    split at h
    · rename_i caller ev hprogress
      split at h
      · cases h
        rw [answer_proceed hmem]
        exact underway hprogress
      · cases h
    · cases h
  | abandon =>
    simp only [act] at h
    split at h
    · rename_i caller ev hprogress
      cases h
      cases List.mem_singleton.1 hmem
      exact underway hprogress
    · cases h

/-- A result is kept. -/
theorem settled_act {r : HealthResult} (h : c.act a = some (d, more))
    (hsettled : c.progress = .settled r) : d.progress = .settled r := by
  cases a with
  | ask caller fix =>
    cases h
    exact hsettled
  | turn =>
    simp only [act, hsettled] at h
    split at h
    · rename_i hprogress
      cases hprogress
    · rename_i hprogress
      cases h
      rfl
    · cases h
  | invoke => simp [act, hsettled] at h
  | checked r' => simp [act, hsettled] at h
  | fixed r' => simp [act, hsettled] at h
  | abandon => simp [act, hsettled] at h

/-- Who is answered has the result that is there. -/
theorem Follows.settled_of_answer (h : Follows (ofItems items) as c rs)
    (hmem : .answer k result ∈ rs) : c.progress = .settled result := by
  obtain ⟨needs, answered, result', rfl, -, -, -, hsettled, -⟩ := h.evaluated_once
  have hanswer : .answer k result ∈ answers result' answered := by simpa using hmem
  obtain ⟨x, hx, heq⟩ := List.mem_map.1 hanswer
  cases heq
  exact hsettled (List.ne_nil_of_mem hx)

/-- Who has asked and is not answered is not forgotten. -/
theorem Follows.mem_pending (h : Follows (ofItems items) as c rs) {x : Nat × Bool}
    (hasked : x ∈ asks as) (hnone : ∀ r, .answer x.1 r ∉ rs) : x ∈ c.pending := by
  obtain ⟨needs, answered, result, rfl, -, -, hasks, -⟩ := h.evaluated_once
  rw [hasks] at hasked
  refine (List.mem_append.1 hasked).resolve_left fun hx => hnone result ?_
  exact List.mem_append_right _ (List.mem_map_of_mem hx)

/-- Who seeks an answer has asked for it. -/
theorem Follows.asked_of_seeks (h : Follows (ofItems items) as c rs) (hk : k ∈ c.seekers) :
    ∃ fix, (k, fix) ∈ asks as := by
  obtain ⟨-, -, answered, -, hasks⟩ := h.kept
  rw [hasks]
  rcases mem_seekers.1 hk with hcaller | ⟨fix, hk⟩
  · unfold Session.callerOf at hcaller
    split at hcaller
    · rename_i caller ev asked hprogress
      cases hcaller
      exact ⟨ev.fix, by simp [pending, evaluating, hprogress]⟩
    · cases hcaller
  · exact ⟨fix, by simp [pending, hk]⟩

/-- Who is answered has asked. -/
theorem Follows.asked_of_answer (h : Follows (ofItems items) as c rs)
    (hmem : .answer k result ∈ rs) : ∃ fix, (k, fix) ∈ asks as := by
  obtain ⟨needs, answered, result', rfl, -, -, hasks, -⟩ := h.evaluated_once
  have hanswer : .answer k result ∈ answers result' answered := by simpa using hmem
  obtain ⟨⟨n, fix⟩, hx, heq⟩ := List.mem_map.1 hanswer
  cases heq
  exact ⟨fix, hasks ▸ List.mem_append_left _ hx⟩

/-! ## More calls that wait -/

/-- The checkup with more calls behind those that wait. -/
def queue (c : Checkup) (xs : List (Nat × Bool)) : Checkup := { c with waiting := c.waiting ++ xs }

@[simp] theorem queue_nil : c.queue [] = c := by simp [queue]

@[simp] theorem progress_queue : (c.queue xs).progress = c.progress := rfl

theorem queue_queue : (c.queue xs).queue ys = c.queue (xs ++ ys) := by simp [queue]

/-- They have asked one by one. -/
theorem Follows.queue (h : Follows b as c rs) (xs : List (Nat × Bool)) :
    Follows b (as ++ xs.map fun x => .ask x.1 x.2) (c.queue xs) rs := by
  induction xs using List.reverseRecOn with
  | nil => simpa using h
  | append_singleton xs x ih =>
    have hask := ih.concat (a := .ask x.1 x.2) rfl
    simpa [Checkup.queue] using hask

theorem asks_queue (as : List Action) (xs : List (Nat × Bool)) :
    asks (as ++ xs.map fun x => .ask x.1 x.2) = asks as ++ xs := by
  simp [asks, List.filterMap_map, Function.comp_def, Action.asks?]

end Checkup

namespace Session

variable {e : Engine} {s t : Session} {i : Input} {is : List Input} {deeds more : List Deed}
  {k n : Nat} {runner other : Selector} {ch ch' : Checkup}

/-! ## The checkup of a runner -/

/-- A checkup that is put in its place is found there. -/
theorem checkup?_putCheckup (h : s.checkup? runner = some ch) :
    (s.putCheckup runner ch').checkup? runner = some ch' := by
  obtain ⟨x, hx, -⟩ := Option.map_eq_some_iff.1 h
  have hfound : x.1 = runner := by simpa using List.find?_some hx
  rw [checkup?, putCheckup, List.find?_map]
  have hsame : ((fun x : Selector × Checkup => decide (x.1 = runner)) ∘
      fun x => if x.1 = runner then (runner, ch') else x) = fun x => decide (x.1 = runner) := by
    funext y
    by_cases hy : y.1 = runner <;> simp [hy]
  rw [hsame, hx]
  simp [hfound]

/-- The checkups of the other runners are as before. -/
theorem checkup?_putCheckup_other (h : other ≠ runner) :
    (s.putCheckup other ch').checkup? runner = s.checkup? runner := by
  rw [checkup?, putCheckup, List.find?_map]
  have hsame : ((fun x : Selector × Checkup => decide (x.1 = runner)) ∘
      fun x => if x.1 = other then (other, ch') else x) = fun x => decide (x.1 = runner) := by
    funext y
    by_cases hy : y.1 = other
    · have hne : y.1 ≠ runner := fun heq => h (hy.symm.trans heq)
      simp [hy, h]
    · simp [hy]
  rw [hsame, checkup?]
  cases hx : s.checkups.find? fun x => decide (x.1 = runner) with
  | none => rfl
  | some x =>
    have hfound : x.1 = runner := by simpa using List.find?_some hx
    have hne : x.1 ≠ other := fun heq => h (heq.symm.trans hfound)
    simp [hne]

/-- The session behind a step of a call. -/
theorem stepCall_eq {j : CallInput} (h : s.stepCall e n j = some (t, more)) :
    ∃ c l' c' fx, s.calls[n]? = some c ∧ c.step e s.ledger j = some (l', c', fx) ∧
      t = (({ s with ledger := l' } : Session).accept n c' fx).1 := by
  obtain ⟨c, hc, hrest⟩ := Option.bind_eq_some_iff.1 h
  obtain ⟨⟨l', c', fx⟩, hcall, haccept⟩ := Option.bind_eq_some_iff.1 hrest
  exact ⟨c, l', c', fx, hc, hcall, (congrArg Prod.fst (Option.some.inj haccept)).symm⟩

/-- The calls that ask for the health of a runner, with their wish to fix. -/
def wishes (runner : Selector) (deeds : List Deed) : List (Nat × Bool) :=
  deeds.filterMap fun d =>
    match d.effect with
    | .examine other fix => if other = runner then some (d.call, fix) else none
    | _ => none

theorem wishes_append :
    wishes runner (deeds ++ more) = wishes runner deeds ++ wishes runner more :=
  List.filterMap_append

theorem mem_wishes {fix : Bool} :
    (k, fix) ∈ wishes runner deeds ↔ ⟨k, .examine runner fix⟩ ∈ deeds := by
  simp only [wishes, List.mem_filterMap]
  constructor
  · rintro ⟨⟨n, x⟩, hd, hx⟩
    cases x with
    | examine other fix' =>
      obtain ⟨rfl, heq⟩ := Option.ite_none_right_eq_some.1 hx
      cases heq
      exact hd
    | _ => cases hx
  · exact fun hd => ⟨_, hd, if_pos rfl⟩

/-- Who asks for the health of a runner waits for its checkup. -/
theorem checkup?_ask {fix : Bool} : (s.ask n other fix).checkup? runner =
    (s.checkup? runner).map (·.queue (wishes runner [⟨n, .examine other fix⟩])) := by
  unfold ask
  cases hfound : s.checkup? other with
  | none =>
    by_cases hother : other = runner
    · subst hother
      simp [hfound]
    · simp [wishes, hother]
  | some ch =>
    have hact : (some ch).bind (·.act (.ask n fix)) = some (ch.queue [(n, fix)], []) := rfl
    rw [hact]
    by_cases hother : other = runner
    · subst hother
      simp [checkup?_putCheckup hfound, hfound, wishes]
    · simp [checkup?_putCheckup_other hother, wishes, hother]

theorem checkup?_foldl_heed (fx : List Effect) (s : Session) :
    (fx.foldl (heed n) s).checkup? runner =
      (s.checkup? runner).map (·.queue (wishes runner (fx.map (⟨n, ·⟩)))) := by
  induction fx generalizing s with
  | nil => simp [wishes]
  | cons x fx ih =>
    have hx : (heed n s x).checkup? runner =
        (s.checkup? runner).map (·.queue (wishes runner [⟨n, x⟩])) := by
      cases x with
      | examine other fix => exact checkup?_ask
      | _ => simp [heed, wishes]
    have hwishes : wishes runner ((x :: fx).map (⟨n, ·⟩)) =
        wishes runner [⟨n, x⟩] ++ wishes runner (fx.map (⟨n, ·⟩)) :=
      @wishes_append [⟨n, x⟩] (fx.map (⟨n, ·⟩)) runner
    rw [List.foldl_cons, ih, hx, Option.map_map, hwishes]
    exact congrArg (Option.map · _) (funext fun c => Checkup.queue_queue)

/-- What the effects of a call are for a checkup. -/
theorem checkup?_accept (s : Session) (n : Nat) (c : Call) (fx : List Effect) :
    (s.accept n c fx).1.checkup? runner =
      (s.checkup? runner).map (·.queue (wishes runner (s.accept n c fx).2)) :=
  checkup?_foldl_heed fx { s with calls := s.calls.set n c }

theorem checkup?_stepCall {j : CallInput} (h : s.stepCall e n j = some (t, more)) :
    t.checkup? runner = (s.checkup? runner).map (·.queue (wishes runner more)) := by
  obtain ⟨c, -, h⟩ := Option.bind_eq_some_iff.1 h
  obtain ⟨⟨l', c', fx⟩, -, h⟩ := Option.bind_eq_some_iff.1 h
  cases h
  exact checkup?_accept { s with ledger := l' } n c' fx

/-! ## Steps and histories -/

/-- It is the turn of the checkup of a runner. -/
def Input.isTurnOf (runner : Selector) : Input → Bool
  | .checkup other _ => other = runner
  | _ => false

/-- **Where a checkup rests** calls may join those that wait for it. -/
theorem checkup?_step (h : s.step e i = some (t, more)) (hturn : i.isTurnOf runner = false) :
    t.checkup? runner = (s.checkup? runner).map (·.queue (wishes runner more)) := by
  cases i with
  | start runId canceled r =>
    obtain ⟨rfl, rfl⟩ := Prod.mk.inj (Option.some.inj h)
    exact checkup?_accept { s with calls := s.calls ++ [_] } _ _ _
  | call number j => exact checkup?_stepCall h
  | checkup other a =>
    have hother : other ≠ runner := by simpa [Input.isTurnOf] using hturn
    obtain ⟨c, -, -, hstep⟩ := stepCheckup_cases h
    cases hstep with
    | rests _ => simp [checkup?_putCheckup_other hother, wishes]
    | attends _ _ => simp [checkup?_putCheckup_other hother, wishes]
    | tells _ htold => rw [checkup?_stepCall htold, checkup?_putCheckup_other hother]
    | unheard _ _ => simp [checkup?_putCheckup_other hother, wishes]

/-- **Where it has its turn** it acts before that. -/
theorem checkup?_turn {a : Checkup.Action} (h : s.step e (.checkup runner a) = some (t, more)) :
    ∃ c d replies, s.checkup? runner = some c ∧ c.act a = some (d, replies) ∧ a.asks? = none ∧
      t.checkup? runner = some (d.queue (wishes runner more)) := by
  obtain ⟨c, hfound, hmay, hstep⟩ := stepCheckup_cases h
  have hask : a.asks? = none := by
    cases a with
    | ask caller fix => cases hmay
    | _ => rfl
  cases hstep with
  | rests hact => exact ⟨c, _, _, hfound, hact, hask, by simp [checkup?_putCheckup hfound, wishes]⟩
  | attends hact _ =>
    exact ⟨c, _, _, hfound, hact, hask, by simp [checkup?_putCheckup hfound, wishes]⟩
  | tells hact htold =>
    refine ⟨c, _, _, hfound, hact, hask, ?_⟩
    rw [checkup?_stepCall htold, checkup?_putCheckup hfound, Option.map_some]
  | unheard hact _ =>
    exact ⟨c, _, _, hfound, hact, hask, by simp [checkup?_putCheckup hfound, wishes]⟩

/-- What a checkup can do its session lets it do. -/
theorem isSome_step_checkup {a : Checkup.Action} (hch : s.checkup? runner = some ch)
    (hmay : s.mayAct ch a = true) (h : (ch.act a).isSome) :
    (s.step e (.checkup runner a)).isSome := by
  obtain ⟨⟨d, replies⟩, hact⟩ := Option.isSome_iff_exists.1 h
  simp [step, stepCheckup, hch, hmay, hact]

/-- What a step of a session is for a checkup: an action of its own, or none, and more calls
that wait. -/
theorem checkup?_of_step (h : s.step e i = some (t, more)) (hch : s.checkup? runner = some ch) :
    ∃ d replies, t.checkup? runner = some (d.queue (wishes runner more)) ∧
      (i.isTurnOf runner = false ∧ d = ch ∧ replies = [] ∨
        ∃ a, i = .checkup runner a ∧ ch.act a = some (d, replies) ∧ a.asks? = none) := by
  cases hturn : i.isTurnOf runner with
  | false =>
    exact ⟨ch, [], by rw [checkup?_step h hturn, hch, Option.map_some], .inl ⟨rfl, rfl, rfl⟩⟩
  | true =>
    cases i with
    | checkup other a =>
      obtain rfl : other = runner := of_decide_eq_true hturn
      obtain ⟨c, d, replies, hfound, hact, hask, ht⟩ := checkup?_turn h
      obtain rfl : ch = c := Option.some.inj (hch.symm.trans hfound)
      exact ⟨d, replies, ht, .inr ⟨a, rfl, hact, hask⟩⟩
    | _ => cases hturn

/-- **A result is kept** by the checkup of a runner. -/
theorem settled_step {result : HealthResult} (h : s.step e i = some (t, more))
    (hch : s.checkup? runner = some ch) (hsettled : ch.progress = .settled result) :
    ∃ ch', t.checkup? runner = some ch' ∧ ch'.progress = .settled result := by
  obtain ⟨d, replies, ht, ⟨-, rfl, -⟩ | ⟨a, -, hact, -⟩⟩ := checkup?_of_step h hch
  · exact ⟨_, ht, hsettled⟩
  · exact ⟨_, ht, (d.progress_queue).trans (Checkup.settled_act hact hsettled)⟩

/-- So it is there in every session that comes behind. -/
theorem Follows.settled_append {result : HealthResult} (h : Follows e is s deeds)
    (hch : s.checkup? runner = some ch) (hsettled : ch.progress = .settled result)
    {js : List Input} (h' : Follows e (is ++ js) t more) :
    ∃ ch', t.checkup? runner = some ch' ∧ ch'.progress = .settled result := by
  induction js using List.reverseRecOn generalizing t more with
  | nil =>
    rw [List.append_nil] at h'
    obtain ⟨rfl, -⟩ := h.unique h'
    exact ⟨ch, hch, hsettled⟩
  | append_singleton js i ih =>
    rw [← List.append_assoc] at h'
    obtain ⟨u, before, _, hu, hstep, -⟩ := h'.of_append
    obtain ⟨ch', hch', hsettled'⟩ := ih hu
    exact settled_step hstep hch' hsettled'

/-- No runner has a checkup that had none in the beginning. -/
theorem Follows.checkup?_eq_none (h : Follows e is s deeds)
    (hnone : (ofEngine e).checkup? runner = none) : s.checkup? runner = none := by
  induction h with
  | start => exact hnone
  | @next is s t deeds more i _ step ih =>
    cases hturn : i.isTurnOf runner with
    | false => rw [checkup?_step step hturn, ih, Option.map_none]
    | true =>
      cases i with
      | checkup other a =>
        obtain rfl : other = runner := of_decide_eq_true hturn
        obtain ⟨c, -, -, hfound, -⟩ := checkup?_turn step
        rw [ih] at hfound
        cases hfound
      | _ => cases hturn

/-- **Every checkup has a history of its own.** The calls in it are those that ask for the
health of the runner. -/
theorem Follows.history {items : List HealthItem} (h : Follows e is s deeds)
    (hitems : (ofEngine e).checkup? runner = some (.ofItems items)) :
    ∃ ch as rs, s.checkup? runner = some ch ∧ Checkup.Follows (.ofItems items) as ch rs ∧
      Checkup.asks as = wishes runner deeds ∧
      as.length = is.countP (Input.isTurnOf runner) + (Checkup.asks as).length := by
  induction h with
  | start => exact ⟨_, [], [], hitems, .refl, rfl, rfl⟩
  | @next is s t deeds more i _ step ih =>
    obtain ⟨ch, as, rs, hch, hfollows, hasks, hlength⟩ := ih
    obtain ⟨d, replies, ht, hcase⟩ := checkup?_of_step step hch
    -- the calls that ask in the step have come behind its action
    obtain ⟨as', rs', hfollows', hasks', hlength'⟩ : ∃ as' rs',
        Checkup.Follows (.ofItems items) as' d rs' ∧ Checkup.asks as' = Checkup.asks as ∧
          as'.length = as.length + (i.isTurnOf runner).toNat := by
      rcases hcase with ⟨hturn, rfl, -⟩ | ⟨a, rfl, hact, hask⟩
      · exact ⟨as, rs, hfollows, rfl, by simp [hturn]⟩
      · refine ⟨as ++ [a], _, hfollows.concat hact, ?_, by simp [Input.isTurnOf]⟩
        simp [Checkup.asks, hask]
    refine ⟨_, _, _, ht, hfollows'.queue (wishes runner more), ?_, ?_⟩
    · rw [Checkup.asks_queue, hasks', hasks, wishes_append]
    · rw [Checkup.asks_queue, List.length_append, List.length_append, List.length_map, hlength',
        hlength, hasks', List.countP_append, List.countP_singleton]
      cases i.isTurnOf runner <;> simp <;> omega

/-- Who seeks an answer of a checkup has asked for it. -/
theorem Follows.asked_of_seeks (h : Follows e is s deeds) (hch : s.checkup? runner = some ch)
    (hk : k ∈ ch.seekers) : ∃ fix, ⟨k, .examine runner fix⟩ ∈ deeds := by
  obtain ⟨items, hitems⟩ : ∃ items, (ofEngine e).checkup? runner = some (.ofItems items) := by
    cases hnone : (ofEngine e).checkup? runner with
    | none =>
      rw [h.checkup?_eq_none hnone] at hch
      cases hch
    | some c =>
      obtain ⟨x, hx, rfl⟩ := mem_of_checkup? hnone
      obtain ⟨r, -, hr⟩ := List.mem_filterMap.1 hx
      obtain ⟨items, -, rfl⟩ := Option.map_eq_some_iff.1 hr
      exact ⟨items, rfl⟩
  obtain ⟨ch', as, rs, hch', hfollows, hasks, -⟩ := h.history hitems
  obtain rfl : ch = ch' := Option.some.inj (hch.symm.trans hch')
  obtain ⟨fix, hfix⟩ := hfollows.asked_of_seeks hk
  exact ⟨fix, mem_wishes.1 (hasks ▸ hfix)⟩

end Session

end Conductor
