import Conductor.Engine.Session
import Conductor.Proofs.Engine.Cache
/-!
# Engine — the steps of a session

What one step of a session is for its calls, said once (`Session.Move`): a call begins,
a call takes a step, a check or a fix is asked for on behalf of a call, or no call is
concerned. A check is made only for a call that has asked for the health of a runner
(`Session.Seeks`), so a call with no such effect has no check (`Follows.attended`).
From one call's point of view a history of the session is its beginning followed by its
own steps (`Follows.along`), and the ledger is handed from step to step
(`Reaches.keyed`).
-/

namespace Conductor

/-- The callers of a checkup that have no answer yet. -/
def Checkup.seekers (c : Checkup) : List Nat :=
  (Session.callerOf c).toList ++ c.waiting.map Prod.fst

/-- Every result is kept under its own fingerprint. -/
def Ledger.Keyed (l : Ledger) : Prop := ∀ fp r, l.cache.get? fp = some r → r.fingerprint = fp

namespace Checkup

variable {c : Checkup} {a : Action} {k : Nat}

theorem mem_seekers : k ∈ c.seekers ↔
    Session.callerOf c = some k ∨ ∃ fix, (k, fix) ∈ c.waiting := by
  simp [seekers]

/-- What may come of an action. -/
structure Acts (c : Checkup) (a : Action) (r : Checkup × List Reply) : Prop where
  /-- Nobody seeks an answer who did not before or asks now. -/
  seekers : ∀ k ∈ r.1.seekers, k ∈ c.seekers ∨ ∃ fix, a = .ask k fix
  /-- It hands out what one caller needs, or answers one, or neither. -/
  replies : r.2 = [] ∨ (∃ n, r.2 = [.need n] ∧ ∃ k ∈ c.seekers, Session.callerOf r.1 = some k) ∨
    ∃ k result, r.2 = [.answer k result]

/-- An evaluation that goes on is on behalf of the same caller, or answers it. -/
theorem acts_proceed {d : Checkup} {caller : Nat} (ev : Evaluation) (hcaller : caller ∈ c.seekers)
    (hwaiting : ∀ k fix, (k, fix) ∈ d.waiting → k ∈ c.seekers) :
    Acts c a (d.proceed caller ev) := by
  unfold proceed
  split
  · refine ⟨fun k hk => .inl ?_, .inl rfl⟩
    rcases mem_seekers.1 hk with hk | ⟨fix, hk⟩
    · cases hk
      exact hcaller
    · exact hwaiting k fix hk
  · refine ⟨fun k hk => .inl ?_, .inr (.inr ⟨_, _, rfl⟩)⟩
    rcases mem_seekers.1 hk with hk | ⟨fix, hk⟩
    · cases hk
    · exact hwaiting k fix hk

/-- **Every action is of this kind.** -/
theorem acts_of_act {r : Checkup × List Reply} (h : c.act a = some r) : Acts c a r := by
  have waits : ∀ k fix, (k, fix) ∈ c.waiting → k ∈ c.seekers :=
    fun k fix hk => mem_seekers.2 (.inr ⟨fix, hk⟩)
  have underway : ∀ {caller : Nat} {ev : Evaluation} {asked : Bool},
      c.progress = .underway caller ev asked → caller ∈ c.seekers := by
    intro caller ev asked hp
    exact mem_seekers.2 (.inl (by rw [Session.callerOf, hp]))
  cases a with
  | ask caller fix =>
    cases h
    refine ⟨fun k hk => ?_, .inl rfl⟩
    rcases mem_seekers.1 hk with hk | ⟨fix', hk⟩
    · exact .inl (mem_seekers.2 (.inl hk))
    · rcases List.mem_append.1 hk with hk | hk
      · exact .inl (waits k fix' hk)
      · cases List.mem_singleton.1 hk
        exact .inr ⟨fix, rfl⟩
  | turn =>
    simp only [act] at h
    split at h
    · rename_i caller fix rest hwaiting hprogress
      cases h
      exact acts_proceed _ (waits caller fix (by simp [hwaiting]))
        fun k fix' hk => waits k fix' (by simp [hwaiting, hk])
    · rename_i caller fix rest result hwaiting hprogress
      cases h
      refine ⟨fun k hk => .inl ?_, .inr (.inr ⟨caller, result, rfl⟩)⟩
      rcases mem_seekers.1 hk with hk | ⟨fix', hk⟩
      · exact mem_seekers.2 (.inl hk)
      · exact waits k fix' (by simp [hwaiting, hk])
    · cases h
  | invoke =>
    simp only [act] at h
    split at h
    · rename_i caller ev hprogress
      obtain ⟨n, -, rfl⟩ := Option.map_eq_some_iff.1 h
      have hcaller := underway hprogress
      refine ⟨fun k hk => .inl ?_, .inr (.inl ⟨n, rfl, caller, hcaller, rfl⟩)⟩
      rcases mem_seekers.1 hk with hk | ⟨fix, hk⟩
      · cases hk
        exact hcaller
      · exact waits k fix hk
    · cases h
  | checked r =>
    simp only [act] at h
    split at h
    · rename_i caller ev hprogress
      -- what ends has to be what was asked for
      split at h
      · cases h
      · cases h
        exact acts_proceed _ (underway hprogress) waits
    · cases h
  | fixed r =>
    simp only [act] at h
    split at h
    · rename_i caller ev hprogress
      split at h
      · cases h
        exact acts_proceed _ (underway hprogress) waits
      · cases h
    · cases h
  | abandon =>
    simp only [act] at h
    split at h
    · rename_i caller ev hprogress
      cases h
      refine ⟨fun k hk => .inl ?_, .inr (.inr ⟨caller, _, rfl⟩)⟩
      rcases mem_seekers.1 hk with hk | ⟨fix, hk⟩
      · cases hk
      · exact waits k fix hk
    · cases h

end Checkup

namespace Session

variable {e : Engine} {s t : Session} {i : Input} {is : List Input} {deeds more : List Deed}
  {k : Nat} {runner : Selector}

/-! ## Who seeks the health of a runner -/

/-- A call waits for the health of some runner, or has it checked. -/
def Seeks (s : Session) (k : Nat) : Prop := ∃ x ∈ s.checkups, k ∈ x.2.seekers

/-- A checkup that is found is one of the session. -/
theorem mem_of_checkup? {c : Checkup} (h : s.checkup? runner = some c) :
    ∃ x ∈ s.checkups, x.2 = c := by
  obtain ⟨x, hx, rfl⟩ := Option.map_eq_some_iff.1 h
  exact ⟨x, List.mem_of_find?_eq_some hx, rfl⟩

/-- Where a checkup has taken a step, nobody seeks who did not before, but for those of
the checkup. -/
theorem seeks_putCheckup {c : Checkup} (h : (s.putCheckup runner c).Seeks k) :
    k ∈ c.seekers ∨ s.Seeks k := by
  obtain ⟨x, hx, hk⟩ := h
  obtain ⟨y, hy, rfl⟩ := List.mem_map.1 hx
  split at hk
  · exact .inl hk
  · exact .inr ⟨y, hy, hk⟩

/-- Where a call asks for a checkup, it is the only one that may be new. -/
theorem seeks_ask {call : Nat} {fix : Bool} (h : (s.ask call runner fix).Seeks k) :
    s.Seeks k ∨ k = call := by
  unfold ask at h
  split at h
  · rename_i c replies hact
    obtain ⟨c₀, hfound, hact⟩ := Option.bind_eq_some_iff.1 hact
    rcases seeks_putCheckup h with hk | hk
    · rcases (Checkup.acts_of_act hact).seekers k hk with hk | ⟨fix', heq⟩
      · obtain ⟨x, hx, rfl⟩ := mem_of_checkup? hfound
        exact .inl ⟨x, hx, hk⟩
      · cases heq
        exact .inr rfl
    · exact .inl hk
  · exact .inl h

/-- Asking for a checkup changes no call and not the ledger. -/
theorem ask_keeps (s : Session) (call : Nat) (runner : Selector) (fix : Bool) :
    (s.ask call runner fix).ledger = s.ledger ∧ (s.ask call runner fix).calls = s.calls := by
  unfold ask
  split <;> exact ⟨rfl, rfl⟩

/-- Heeding effects changes no call and not the ledger, and a call seeks only if it did or
asks now. -/
theorem foldl_heed (call : Nat) (fx : List Effect) (s : Session) :
    (fx.foldl (heed call) s).ledger = s.ledger ∧ (fx.foldl (heed call) s).calls = s.calls ∧
      ∀ k, (fx.foldl (heed call) s).Seeks k →
        s.Seeks k ∨ k = call ∧ ∃ runner fix, Effect.examine runner fix ∈ fx := by
  induction fx generalizing s with
  | nil => exact ⟨rfl, rfl, fun k h => .inl h⟩
  | cons x fx ih =>
    obtain ⟨hledger, hcalls, hseeks⟩ := ih (heed call s x)
    have hstep : (heed call s x).ledger = s.ledger ∧ (heed call s x).calls = s.calls ∧
        ∀ k, (heed call s x).Seeks k →
          s.Seeks k ∨ k = call ∧ ∃ runner fix, x = .examine runner fix := by
      cases x with
      | examine runner fix =>
        obtain ⟨h₁, h₂⟩ := ask_keeps s call runner fix
        exact ⟨h₁, h₂, fun k hk => (seeks_ask hk).imp id fun hk => ⟨hk, runner, fix, rfl⟩⟩
      | _ => exact ⟨rfl, rfl, fun k hk => .inl hk⟩
    refine ⟨hledger.trans hstep.1, hcalls.trans hstep.2.1, fun k hk => ?_⟩
    rcases hseeks k hk with hk | ⟨rfl, runner, fix, hmem⟩
    · rcases hstep.2.2 k hk with hk | ⟨rfl, runner, fix, rfl⟩
      · exact .inl hk
      · exact .inr ⟨rfl, runner, fix, List.mem_cons_self ..⟩
    · exact .inr ⟨rfl, runner, fix, List.mem_cons_of_mem _ hmem⟩

/-! ## Steps -/

/-- The request with which a call begins. -/
def Input.request? : Input → Option Request
  | .start _ _ r => some r
  | _ => none

/-- What one step of a session is for its calls. -/
inductive Move (e : Engine) (s : Session) : Input → Session → List Deed → Prop
  | begins {t : Session} (runId : String) (canceled : Bool) (r : Request) :
    t.ledger = s.ledger → t.calls = s.calls ++ [(Call.start e runId canceled r).1] →
      Move e s (.start runId canceled r) t
        ((Call.start e runId canceled r).2.map (⟨s.calls.length, ·⟩))
  /-- A call takes a step; what a checkup tells it is the health of a runner. -/
  | steps {t : Session} {i : Input} {k : Nat} {j : CallInput} {l' : Ledger} {c c' : Call}
    {fx : List Effect} : i.request? = none → s.calls[k]? = some c →
      c.step e s.ledger j = some (l', c', fx) → (i = .call k j ∨ ∃ r, j = .examined r) →
      t.ledger = l' → t.calls = s.calls.set k c' → Move e s i t (fx.map (⟨k, ·⟩))
  /-- A check or a fix is asked for on behalf of a call that seeks it. -/
  | attends {t : Session} {i : Input} {k : Nat} {runner : Selector} {n : HealthNeed} :
    i.request? = none → s.Seeks k → t.ledger = s.ledger → t.calls = s.calls →
      Move e s i t [⟨k, .attend runner n⟩]
  | rests {t : Session} {i : Input} :
    i.request? = none → t.ledger = s.ledger → t.calls = s.calls → Move e s i t []

/-- Nobody seeks the health of a runner who did not before or asks for it now. -/
def Recorded (s t : Session) (deeds : List Deed) : Prop :=
  ∀ k, t.Seeks k → s.Seeks k ∨ ∃ runner fix, ⟨k, .examine runner fix⟩ ∈ deeds

/-- Calls stay in a session. -/
theorem Move.length_le (h : Move e s i t deeds) : s.calls.length ≤ t.calls.length := by
  cases h with
  | begins _ _ _ _ hcalls => simp [hcalls]
  | steps _ _ _ _ _ hcalls => simp [hcalls]
  | attends _ _ _ hcalls => simp [hcalls]
  | rests _ _ hcalls => simp [hcalls]

/-- Taking over a call changes that call, and not the ledger. -/
theorem accept_keeps (s : Session) (number : Nat) (c : Call) (fx : List Effect) :
    (s.accept number c fx).1.ledger = s.ledger ∧
      (s.accept number c fx).1.calls = s.calls.set number c ∧
        Recorded s (s.accept number c fx).1 (s.accept number c fx).2 := by
  obtain ⟨hledger, hcalls, hseeks⟩ := foldl_heed number fx { s with calls := s.calls.set number c }
  refine ⟨hledger, hcalls, fun k hk => (hseeks k hk).imp id ?_⟩
  rintro ⟨rfl, runner, fix, hmem⟩
  exact ⟨runner, fix, List.mem_map_of_mem hmem⟩

/-- What comes of a step of a call. -/
theorem stepCall_cases {j : CallInput} (h : s.stepCall e k j = some (t, deeds)) :
    ∃ c l' c' fx, s.calls[k]? = some c ∧ c.step e s.ledger j = some (l', c', fx) ∧
      deeds = fx.map (⟨k, ·⟩) ∧ t.ledger = l' ∧ t.calls = s.calls.set k c' ∧
        Recorded s t deeds := by
  obtain ⟨c, hc, h⟩ := Option.bind_eq_some_iff.1 h
  obtain ⟨⟨l', c', fx⟩, hstep, h⟩ := Option.bind_eq_some_iff.1 h
  cases h
  obtain ⟨hledger, hcalls, hrecorded⟩ := accept_keeps { s with ledger := l' } k c' fx
  exact ⟨c, l', c', fx, hc, hstep, rfl, hledger, hcalls, hrecorded⟩

/-- What a step of a checkup is for its session. -/
inductive CheckupStep (e : Engine) (s : Session) (runner : Selector) (c : Checkup)
    (a : Checkup.Action) : Session → List Deed → Prop
  | rests {d : Checkup} : c.act a = some (d, []) →
    CheckupStep e s runner c a (s.putCheckup runner d) []
  /-- A check or a fix is asked for on behalf of a call that seeks it. -/
  | attends {d : Checkup} {n : HealthNeed} {k : Nat} : c.act a = some (d, [.need n]) →
    k ∈ c.seekers → CheckupStep e s runner c a (s.putCheckup runner d) [⟨k, .attend runner n⟩]
  /-- A call is told the health of the runner. -/
  | tells {d : Checkup} {k : Nat} {r : HealthResult} {t : Session} {deeds : List Deed} :
    c.act a = some (d, [.answer k r]) →
      (s.putCheckup runner d).stepCall e k (.examined r) = some (t, deeds) →
      CheckupStep e s runner c a t deeds
  /-- There is nobody to be told. -/
  | unheard {d : Checkup} {k : Nat} {r : HealthResult} : c.act a = some (d, [.answer k r]) →
    (s.putCheckup runner d).stepCall e k (.examined r) = none →
    CheckupStep e s runner c a (s.putCheckup runner d) []

/-- **Every step of a checkup is one of these.** -/
theorem stepCheckup_cases {a : Checkup.Action} (h : s.stepCheckup e runner a = some (t, deeds)) :
    ∃ c, s.checkup? runner = some c ∧ s.mayAct c a = true ∧
      CheckupStep e s runner c a t deeds := by
  obtain ⟨c, hfound, h⟩ := Option.bind_eq_some_iff.1 h
  split at h
  swap
  · cases h
  rename_i hmay
  obtain ⟨⟨d, replies⟩, hact, h⟩ := Option.bind_eq_some_iff.1 h
  refine ⟨c, hfound, hmay, ?_⟩
  rcases (Checkup.acts_of_act hact).replies with rfl | ⟨n, rfl, k, hk, hcaller⟩ | ⟨k, r, rfl⟩
  · cases h
    exact .rests hact
  · simp only [List.foldl_cons, List.foldl_nil, handOn, hcaller] at h
    cases h
    exact .attends hact hk
  · simp only [List.foldl_cons, List.foldl_nil, handOn] at h
    split at h
    · rename_i t' deeds' hstep
      cases h
      exact .tells hact hstep
    · rename_i hstep
      cases h
      exact .unheard hact hstep

/-- What comes of a step of a checkup. -/
theorem move_stepCheckup {a : Checkup.Action} (h : s.stepCheckup e runner a = some (t, deeds)) :
    Move e s (.checkup runner a) t deeds ∧ Recorded s t deeds := by
  obtain ⟨c, hfound, hmay, hstep⟩ := stepCheckup_cases h
  obtain ⟨x, hx, rfl⟩ := mem_of_checkup? hfound
  have hput : ∀ {d : Checkup} {replies : List Checkup.Reply}, x.2.act a = some (d, replies) →
      ∀ k, (s.putCheckup runner d).Seeks k → s.Seeks k := by
    intro d replies hact k hk
    rcases seeks_putCheckup hk with hk | hk
    · rcases (Checkup.acts_of_act hact).seekers k hk with hk | ⟨fix, rfl⟩
      · exact ⟨x, hx, hk⟩
      · cases hmay
    · exact hk
  cases hstep with
  | rests hact => exact ⟨.rests rfl rfl rfl, fun k hk => .inl (hput hact k hk)⟩
  | attends hact hk =>
    exact ⟨.attends rfl ⟨x, hx, hk⟩ rfl rfl, fun k hk => .inl (hput hact k hk)⟩
  | @tells d k r _ _ hact htold =>
    -- the call steps in a session that differs in the checkup only
    obtain ⟨c, l', c', fx, hc, hcall, rfl, hledger, hcalls, hrecorded⟩ := stepCall_cases htold
    exact ⟨.steps rfl hc hcall (.inr ⟨r, rfl⟩) hledger hcalls,
      fun k' hk' => (hrecorded k' hk').imp (hput hact k') id⟩
  | unheard hact => exact ⟨.rests rfl rfl rfl, fun k hk => .inl (hput hact k hk)⟩

/-- **Every step of a session is one of these moves.** -/
theorem Move.of_step (h : s.step e i = some (t, deeds)) :
    Move e s i t deeds ∧ Recorded s t deeds := by
  cases i with
  | start runId canceled r =>
    obtain ⟨hledger, hcalls, hrecorded⟩ := accept_keeps
      { s with calls := s.calls ++ [(Call.start e runId canceled r).1] } s.calls.length
      (Call.start e runId canceled r).1 (Call.start e runId canceled r).2
    have hstart : _ = (t, deeds) := Option.some.inj h
    obtain ⟨rfl, rfl⟩ := Prod.mk.inj hstart
    exact ⟨.begins runId canceled r hledger (hcalls.trans (by simp)), hrecorded⟩
  | call number j =>
    obtain ⟨c, l', c', fx, hc, hstep, rfl, hledger, hcalls, hrecorded⟩ := stepCall_cases h
    exact ⟨.steps rfl hc hstep (.inl rfl) hledger hcalls, hrecorded⟩
  | checkup runner a => exact move_stepCheckup h

/-! ## Histories -/

/-- A session behind some inputs, each of which was possible, with all that was done. -/
inductive Follows (e : Engine) : List Input → Session → List Deed → Prop
  | start : Follows e [] (ofEngine e) []
  | next {is : List Input} {s t : Session} {deeds more : List Deed} {i : Input} :
    Follows e is s deeds → s.step e i = some (t, more) → Follows e (is ++ [i]) t (deeds ++ more)

/-- Every session that is reached has such a history. -/
theorem Reaches.follows (h : Reaches e s deeds) : ∃ is, Follows e is s deeds := by
  induction h with
  | initial => exact ⟨[], .start⟩
  | next _ step ih =>
    obtain ⟨is, ih⟩ := ih
    exact ⟨_, ih.next step⟩

/-- Inputs lead to one session, and to one history. -/
theorem Follows.unique (h : Follows e is s deeds) (h' : Follows e is t more) :
    s = t ∧ deeds = more := by
  induction h generalizing t more with
  | start =>
    generalize hnil : [] = js at h'
    cases h' with
    | start => exact ⟨rfl, rfl⟩
    | next => simp at hnil
  | next _ step ih =>
    generalize hsnoc : _ ++ [_] = js at h'
    cases h' with
    | start => simp at hsnoc
    | next follows' step' =>
      obtain ⟨rfl, hi⟩ := List.append_inj' hsnoc rfl
      cases hi
      obtain ⟨rfl, rfl⟩ := ih follows'
      rw [step] at step'
      cases step'
      exact ⟨rfl, rfl⟩

/-- A history that goes on has gone on by a step. -/
theorem Follows.of_append (h : Follows e (is ++ [i]) t deeds) :
    ∃ s before more, Follows e is s before ∧ s.step e i = some (t, more) ∧
      deeds = before ++ more := by
  generalize hsnoc : is ++ [i] = js at h
  cases h with
  | start => simp at hsnoc
  | next follows step =>
    obtain ⟨rfl, hi⟩ := List.append_inj' hsnoc rfl
    cases hi
    exact ⟨_, _, _, follows, step, rfl⟩

/-- The effects of a call. -/
def deedsOf (k : Nat) (deeds : List Deed) : List Effect :=
  (deeds.filter (·.call = k)).map Deed.effect

/-- The requests with which calls began, in the order of the calls. -/
def requests (is : List Input) : List Request := is.filterMap Input.request?

@[simp] theorem requests_append (i : Input) :
    requests (is ++ [i]) = requests is ++ i.request?.toList := by
  rw [requests, List.filterMap_append]
  cases h : i.request? <;> simp [requests, h]

@[simp] theorem deedsOf_append :
    deedsOf k (deeds ++ more) = deedsOf k deeds ++ deedsOf k more := by
  simp [deedsOf]

@[simp] theorem deedsOf_own (fx : List Effect) : deedsOf k (fx.map (⟨k, ·⟩)) = fx := by
  simp [deedsOf, List.filter_map, Function.comp_def]

theorem deedsOf_other {number : Nat} (h : number ≠ k) (fx : List Effect) :
    deedsOf k (fx.map (⟨number, ·⟩)) = [] := by
  simp [deedsOf, List.filter_map, Function.comp_def, h]

theorem mem_deedsOf {x : Effect} : x ∈ deedsOf k deeds ↔ ⟨k, x⟩ ∈ deeds := by
  simp only [deedsOf, List.mem_map, List.mem_filter, decide_eq_true_eq]
  constructor
  · rintro ⟨⟨_, _⟩, ⟨hmem, rfl⟩, rfl⟩
    exact hmem
  · exact fun h => ⟨_, ⟨h, rfl⟩, rfl⟩

/-- A call asks for the health of a runner. -/
def Examines (fx : List Effect) : Prop := ∃ runner fix, Effect.examine runner fix ∈ fx

/-- There are as many calls as have begun. -/
theorem Follows.length_calls (h : Follows e is s deeds) :
    s.calls.length = (requests is).length := by
  induction h with
  | start => rfl
  | next _ step ih =>
    rw [requests_append, List.length_append, ← ih]
    cases (Move.of_step step).1 with
    | begins runId canceled r hledger hcalls => simp [hcalls, Input.request?]
    | steps hi _ _ _ _ hcalls => simp [hcalls, hi]
    | attends hi _ _ hcalls => simp [hcalls, hi]
    | rests hi _ hcalls => simp [hcalls, hi]

/-- A call that has begun keeps its request. -/
theorem Follows.request_append (h : Follows e is s deeds) (hk : k < s.calls.length) (i : Input) :
    (requests (is ++ [i]))[k]? = (requests is)[k]? := by
  rw [requests_append, List.getElem?_append_left (h.length_calls ▸ hk)]

/-- A call has the request with which it begins. -/
theorem Follows.request_start (h : Follows e is s deeds) (runId : String) (canceled : Bool)
    (r : Request) : (requests (is ++ [.start runId canceled r]))[s.calls.length]? = some r := by
  rw [requests_append, h.length_calls, Input.request?, Option.toList_some,
    List.getElem?_concat_length]

/-- In the beginning nobody seeks the health of a runner. -/
theorem not_seeks_ofEngine : ¬ (ofEngine e).Seeks k := by
  rintro ⟨x, hx, hk⟩
  obtain ⟨r, -, hr⟩ := List.mem_filterMap.1 hx
  obtain ⟨items, -, rfl⟩ := Option.map_eq_some_iff.1 hr
  simp [Checkup.seekers, callerOf, Checkup.ofItems] at hk

/-- **Only who has asked is attended**: a call that seeks the health of a runner has
asked for it. -/
theorem Follows.examines_of_seeks (h : Follows e is s deeds) (hk : s.Seeks k) :
    Examines (deedsOf k deeds) := by
  induction h with
  | start => exact absurd hk not_seeks_ofEngine
  | next _ step ih =>
    rw [deedsOf_append]
    rcases (Move.of_step step).2 k hk with hk | ⟨runner, fix, hmem⟩
    · obtain ⟨runner, fix, hmem⟩ := ih hk
      exact ⟨runner, fix, List.mem_append_left _ hmem⟩
    · exact ⟨runner, fix, List.mem_append_right _ (mem_deedsOf.2 hmem)⟩

/-- What was done was done for a call that has begun. -/
theorem Follows.lt_of_mem (h : Follows e is s deeds) {d : Deed} (hd : d ∈ deeds) :
    d.call < s.calls.length := by
  induction h generalizing d with
  | start => cases hd
  | @next is s t deeds more i follows step ih =>
    have hmove := (Move.of_step step).1
    have hle := hmove.length_le
    rcases List.mem_append.1 hd with hd | hd
    · exact Nat.lt_of_lt_of_le (ih hd) hle
    · cases hmove with
      | begins runId canceled r _ hcalls =>
        obtain ⟨x, -, rfl⟩ := List.mem_map.1 hd
        simp [hcalls]
      | steps _ hc _ _ _ hcalls =>
        obtain ⟨x, -, rfl⟩ := List.mem_map.1 hd
        exact Nat.lt_of_lt_of_le (List.getElem?_eq_some_iff.1 hc).1 hle
      | attends _ hseeks _ _ =>
        cases List.mem_singleton.1 hd
        obtain ⟨runner, fix, hmem⟩ := follows.examines_of_seeks hseeks
        have hlt := ih (mem_deedsOf.1 hmem)
        exact Nat.lt_of_lt_of_le hlt hle
      | rests => cases hd

/-- What happens to a call happens to one that has begun. -/
theorem Follows.lt_of_input (h : Follows e is s deeds) {j : CallInput} (hj : .call k j ∈ is) :
    k < s.calls.length := by
  induction h with
  | start => cases hj
  | next _ step ih =>
    have hle := (Move.of_step step).1.length_le
    rcases List.mem_append.1 hj with hj | hj
    · exact Nat.lt_of_lt_of_le (ih hj) hle
    · cases List.mem_singleton.1 hj
      obtain ⟨c, -, -, -, hc, -⟩ := stepCall_cases step
      exact Nat.lt_of_lt_of_le (List.getElem?_eq_some_iff.1 hc).1 hle

/-- Nothing was done for a call that has not begun. -/
theorem Follows.deedsOf_eq_nil (h : Follows e is s deeds) (hk : s.calls.length ≤ k) :
    deedsOf k deeds = [] := by
  refine List.eq_nil_iff_forall_not_mem.2 fun x hx => ?_
  have hlt := h.lt_of_mem (mem_deedsOf.1 hx)
  exact Nat.not_lt.2 hk hlt

/-! ## One call -/

/-- What a step of a session is for one of its calls that has begun. -/
inductive Turn (e : Engine) (s : Session) (k : Nat) (c : Call) :
    Input → Call → List Effect → Prop
  | own {i : Input} {j : CallInput} {l' : Ledger} {c' : Call} {fx : List Effect} :
    c.step e s.ledger j = some (l', c', fx) → (i = .call k j ∨ ∃ r, j = .examined r) →
      Turn e s k c i c' fx
  | attended {i : Input} {runner : Selector} {n : HealthNeed} :
    s.Seeks k → Turn e s k c i c [.attend runner n]
  | idle {i : Input} : Turn e s k c i c []

/-- A call begins with a step, or has its turn in it. -/
theorem Move.turn (h : Move e s i t more) {c' : Call} (hc : t.calls[k]? = some c') :
    (k = s.calls.length ∧ ∃ runId canceled r, i = .start runId canceled r ∧
        c' = (Call.start e runId canceled r).1 ∧
        deedsOf k more = (Call.start e runId canceled r).2) ∨
      ∃ c, s.calls[k]? = some c ∧ Turn e s k c i c' (deedsOf k more) := by
  cases h with
  | begins runId canceled r _ hcalls =>
    rw [hcalls] at hc
    rcases Nat.lt_trichotomy k s.calls.length with hlt | rfl | hgt
    · rw [List.getElem?_append_left hlt] at hc
      rw [deedsOf_other (Nat.ne_of_gt hlt)]
      exact .inr ⟨c', hc, .idle⟩
    · rw [List.getElem?_concat_length, Option.some.injEq] at hc
      rw [deedsOf_own]
      exact .inl ⟨rfl, runId, canceled, r, rfl, hc.symm, rfl⟩
    · rw [List.getElem?_eq_none (by simpa using Nat.succ_le_of_lt hgt)] at hc
      cases hc
  | @steps _ _ number j l' c₀ c₁ fx _ hc₀ hstep hi _ hcalls =>
    rw [hcalls] at hc
    by_cases hk : number = k
    · subst hk
      rw [List.getElem?_set_self (List.getElem?_eq_some_iff.1 hc₀).1, Option.some.injEq] at hc
      subst hc
      rw [deedsOf_own]
      exact .inr ⟨c₀, hc₀, .own hstep hi⟩
    · rw [List.getElem?_set_ne hk] at hc
      rw [deedsOf_other hk]
      exact .inr ⟨c', hc, .idle⟩
  | @attends _ _ number runner n _ hseeks _ hcalls =>
    rw [hcalls] at hc
    refine .inr ⟨c', hc, ?_⟩
    by_cases hk : number = k
    · subst hk
      exact deedsOf_own (k := number) [.attend runner n] ▸ .attended hseeks
    · exact deedsOf_other hk [.attend runner n] ▸ .idle
  | rests _ _ hcalls =>
    rw [hcalls] at hc
    exact .inr ⟨c', hc, .idle⟩

/-- A call that has its result keeps it. -/
theorem Move.finished (h : Move e s i t more) {c : Call} {r : Except OrchestrationError Answer}
    (hc : s.calls[k]? = some c) (hphase : c.phase = .finished r) :
    ∃ c', t.calls[k]? = some c' ∧ c'.phase = .finished r := by
  have hlt := (List.getElem?_eq_some_iff.1 hc).1
  obtain ⟨c', hc'⟩ : ∃ c', t.calls[k]? = some c' :=
    ⟨_, List.getElem?_eq_getElem (Nat.lt_of_lt_of_le hlt h.length_le)⟩
  refine ⟨c', hc', ?_⟩
  rcases h.turn hc' with ⟨hk, -⟩ | ⟨c₀, hc₀, hturn⟩
  · exact absurd hlt (by simp [hk])
  · rw [hc] at hc₀
    cases hc₀
    generalize deedsOf k more = fx at hturn
    cases hturn with
    | own hstep _ => exact ((Call.Step.of_step hstep).finished hphase).1
    | attended => exact hphase
    | idle => exact hphase

/-- **A call along its session**: what holds of a call when it begins, and is kept by its
own steps and when it is attended or rests, holds of it at every point. -/
theorem Follows.along {Q : List Input → Call → List Effect → Prop} {request : Request}
    (h : Follows e is s deeds) {c : Call} (hc : s.calls[k]? = some c)
    (hr : (requests is)[k]? = some request)
    (begins : ∀ is runId canceled, Q (is ++ [.start runId canceled request])
      (Call.start e runId canceled request).1 (Call.start e runId canceled request).2)
    (turn : ∀ is s deeds i c c' fx, Follows e is s deeds → s.calls[k]? = some c →
      Q is c (deedsOf k deeds) → Turn e s k c i c' fx → Q (is ++ [i]) c' (deedsOf k deeds ++ fx)) :
    Q is c (deedsOf k deeds) := by
  induction h generalizing c with
  | start => cases hc
  | @next is s t deeds more i follows step ih =>
    rw [deedsOf_append]
    rcases (Move.of_step step).1.turn hc with
      ⟨rfl, runId, canceled, r, rfl, rfl, hmore⟩ | ⟨c₀, hc₀, hturn⟩
    · -- the call is the one that begins, and nothing was done for it before
      rw [follows.deedsOf_eq_nil (Nat.le_refl _), List.nil_append, hmore]
      rw [follows.request_start, Option.some.injEq] at hr
      exact hr ▸ begins is runId canceled
    · rw [follows.request_append (List.getElem?_eq_some_iff.1 hc₀).1] at hr
      exact turn is s deeds i c₀ c _ follows hc₀ (ih hc₀ hr) hturn

/-! ## The ledger -/

/-- A step of a call keeps every result under its own fingerprint. -/
theorem keyed_step {c c' : Call} {j : CallInput} {l l' : Ledger} {fx : List Effect}
    (h : Call.Step e l c j l' c' fx) (hl : l.Keyed) : l'.Keyed := by
  cases h with
  | build _ hs =>
    rcases BuildStage.proceed_cases hs with ⟨_, _, _, _, _, _, rfl, _⟩ | ⟨_, _, _, _, _, rfl, _⟩ |
      ⟨_, _, _, _, rfl, _⟩
    · exact hl
    · exact hl
    · exact hl
  | join _ hs =>
    obtain ⟨-, u, n, how, -, ⟨out, -, -, rfl⟩ | ⟨failure, -, rfl, -⟩⟩ := BuildStage.join_cases hs
    · intro fp r hr
      simp only [Ledger.enter, Table.get?_insert] at hr
      split at hr
      · rename_i hfp
        cases hr
        exact hfp.symm
      · exact hl fp r hr
    · exact hl
  | _ => exact hl

/-- **The ledger of a session keeps every result under its own fingerprint.** -/
theorem Reaches.keyed (h : Reaches e s deeds) : s.ledger.Keyed := by
  induction h with
  | initial => exact fun fp r hr => by cases hr
  | next _ step ih =>
    cases (Move.of_step step).1 with
    | begins runId canceled r hledger _ => exact hledger ▸ ih
    | steps _ _ hstep _ hledger _ => exact hledger ▸ keyed_step (.of_step hstep) ih
    | attends _ _ hledger _ => exact hledger ▸ ih
    | rests _ hledger _ => exact hledger ▸ ih

end Session

end Conductor
