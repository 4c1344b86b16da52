import Conductor.Health.Checkup
/-!
# Health — a checkup evaluates once

A history of a checkup is a list of actions in the order in which they happened:
calls that come in with wishes of their own, turns, checks and fixes that are handed
out and answer, and the cancellation of the call that evaluates, whenever its context
has it. What comes of any such history has one form (`Follows.evaluated_once`): first
the checks and fixes that were handed out, no two the same, and then the answers, one
result for all, in the order of the calls.

The invariant is `Kept`. Checks and fixes are handed out by growing `HealthNeed.rank`,
and an evaluation never goes back: what it needs next is ranked `Evaluation.due`, and
every answer raises that (`due_lt_checked`, `due_lt_fixed`).
-/

namespace Conductor

/-! ## Needs in their order -/

namespace HealthNeed

/-- The place of a need in the order of an evaluation: an item is checked, then fixed. -/
def rank : HealthNeed → Nat
  | .check i => 2 * i
  | .fix i => 2 * i + 1

/-- The need is one of these items: a fix needs a fixer. -/
def Of (items : List HealthItem) : HealthNeed → Prop
  | .check i => ∃ item, items[i]? = some item
  | .fix i => ∃ item, items[i]? = some item ∧ item.hasFixer

end HealthNeed

/-- Needs of these items in the order of an evaluation, each once. -/
structure HealthNeed.Ordered (items : List HealthItem) (needs : List HealthNeed) : Prop where
  rising : needs.Pairwise fun m n => m.rank < n.rank
  mem : ∀ n ∈ needs, n.Of items

namespace HealthNeed.Ordered

variable {items : List HealthItem} {needs : List HealthNeed} {n : HealthNeed}

theorem nil : Ordered items [] := ⟨.nil, by simp⟩

/-- A need above all others comes last. -/
theorem concat (h : Ordered items needs) (hn : n.Of items) (hlt : ∀ m ∈ needs, m.rank < n.rank) :
    Ordered items (needs ++ [n]) := by
  refine ⟨List.pairwise_append.2 ⟨h.rising, List.pairwise_singleton _ _, ?_⟩, ?_⟩
  · intro m hm n' hn'
    rw [List.mem_singleton.1 hn']
    exact hlt m hm
  · intro m hm
    rcases List.mem_append.1 hm with hm | hm
    · exact h.mem m hm
    · rw [List.mem_singleton.1 hm]
      exact hn

theorem nodup (h : Ordered items needs) : needs.Nodup :=
  h.rising.imp fun hlt heq => by
    rw [heq] at hlt
    exact Nat.lt_irrefl _ hlt

end HealthNeed.Ordered

namespace Evaluation

variable {items : List HealthItem} {ev : Evaluation} {n : HealthNeed}

/-- The rank of what an evaluation needs next. -/
def due (ev : Evaluation) : Nat := 2 * ev.place + ev.fixing.toNat

/-- An evaluation of these items: what remains begins at its place, and only an item
with a fixer is fixed. -/
structure At (items : List HealthItem) (ev : Evaluation) : Prop where
  remaining : ev.remaining = items.drop ev.place
  fixing : ev.fixing → ∃ item, items[ev.place]? = some item ∧ item.hasFixer

theorem at_start (items : List HealthItem) (fix : Bool) : At items (.start items fix) :=
  ⟨rfl, by simp [start]⟩

theorem rank_need (h : ev.need? = some n) : n.rank = ev.due := by
  unfold need? at h
  split at h
  · cases h
  · cases h
    cases hf : ev.fixing <;> simp [due, hf, HealthNeed.rank]

theorem At.item {item : HealthItem} {rest : List HealthItem} (h : At items ev)
    (hrem : ev.remaining = item :: rest) : items[ev.place]? = some item := by
  have hhead : (items.drop ev.place)[0]? = some item := by
    rw [← h.remaining, hrem]
    rfl
  simpa using hhead

/-- **An evaluation needs what its items have.** -/
theorem At.need (h : At items ev) (hn : ev.need? = some n) : n.Of items := by
  unfold need? at hn
  split at hn
  · cases hn
  · rename_i item rest hrem
    cases hn
    cases hf : ev.fixing with
    | true => simpa [HealthNeed.Of] using h.fixing hf
    | false => exact ⟨item, h.item hrem⟩

/-- What a check that answers makes of an evaluation: its item is done, or to be fixed. -/
theorem checked_cases {item : HealthItem} {rest : List HealthItem} (r : CheckResult)
    (hrem : ev.remaining = item :: rest) :
    ∃ report, (∃ entry, ev.checked r = { ev with report }.next entry) ∨
      (item.hasFixer ∧ ev.checked r = { ev with report, fixing := true }) := by
  refine ⟨{ ev.report with checks := ev.report.checks ++ [.ofCheck item.name r] }, ?_⟩
  unfold checked
  rw [hrem]
  dsimp only
  split
  · rename_i hfixer
    split
    · exact .inr ⟨hfixer, by rw [← hrem]⟩
    · exact .inl ⟨_, by rw [← hrem]⟩
  · exact .inl ⟨none, by rw [← hrem]⟩

/-- What is left to do: a check and a fix for each item that remains. -/
def work (ev : Evaluation) : Nat := 2 * ev.remaining.length - ev.fixing.toNat

/-- What an answer makes of an evaluation that asked for it. -/
structure Advance (items : List HealthItem) (ev ev' : Evaluation) : Prop where
  at_items : At items ev'
  fix : ev'.fix = ev.fix
  due : ev.due < ev'.due
  work : ev'.work < ev.work

theorem advance_next (h : At items ev) (hne : ev.remaining ≠ []) (report : HealthReport)
    (entry : Option HealthEntry) : Advance items ev ({ ev with report }.next entry) := by
  have hpos : 0 < ev.remaining.length := List.length_pos_iff.2 hne
  have hfixing : ev.fixing.toNat ≤ 1 := Bool.toNat_le _
  refine ⟨⟨by simp [next, h.remaining], by simp [next]⟩, rfl, ?_, ?_⟩
  · simp only [Evaluation.due, next, Bool.toNat_false]
    omega
  · simp only [Evaluation.work, next, List.length_tail, Bool.toNat_false]
    omega

/-- **A check that answers takes an evaluation further.** -/
theorem advance_checked (h : At items ev) (hne : ev.remaining ≠ []) (hf : ev.fixing = false)
    (r : CheckResult) : Advance items ev (ev.checked r) := by
  obtain ⟨item, rest, hrem⟩ := List.exists_cons_of_ne_nil hne
  obtain ⟨report, ⟨entry, heq⟩ | ⟨hfixer, heq⟩⟩ := checked_cases r hrem
  · rw [heq]
    exact advance_next h hne report entry
  · rw [heq]
    refine ⟨⟨h.remaining, fun _ => ⟨item, h.item hrem, hfixer⟩⟩, rfl, ?_, ?_⟩
    · simp [Evaluation.due, hf]
    · simp only [Evaluation.work, hf, hrem, List.length_cons, Bool.toNat_true, Bool.toNat_false]
      omega

/-- **A fix that answers takes an evaluation further.** -/
theorem advance_fixed (h : At items ev) (hne : ev.remaining ≠ []) (r : FixResult) :
    Advance items ev (ev.fixed r) := by
  obtain ⟨item, rest, hrem⟩ := List.exists_cons_of_ne_nil hne
  have heq : ev.fixed r = ev.next (some (.ofFix item.name r)) := by
    unfold fixed
    rw [hrem]
  rw [heq]
  exact advance_next h hne ev.report _

theorem need_eq_none : ev.need? = none ↔ ev.remaining = [] := by
  unfold need?
  split <;> simp_all

end Evaluation

/-! ## Histories -/

namespace Checkup

variable {items : List HealthItem} {b c d : Checkup} {a : Action} {as : List Action}
  {rs more : List Reply} {needs : List HealthNeed} {answered : List (Nat × Bool)}

/-- A history from one checkup to another: the actions, and all that came of them. -/
inductive Follows (b : Checkup) : List Action → Checkup → List Reply → Prop
  | refl : Follows b [] b []
  | concat {as : List Action} {c d : Checkup} {a : Action} {rs more : List Reply} :
    Follows b as c rs → c.act a = some (d, more) → Follows b (as ++ [a]) d (rs ++ more)

/-- The call that an action is, with its wish to fix. -/
def Action.asks? : Action → Option (Nat × Bool)
  | .ask caller fix => some (caller, fix)
  | _ => none

/-- The calls of a history, in their order. -/
def asks (as : List Action) : List (Nat × Bool) := as.filterMap Action.asks?

/-- The call that evaluates. -/
def evaluating : CheckupProgress → List (Nat × Bool)
  | .underway caller ev _ => [(caller, ev.fix)]
  | _ => []

/-- The calls that have no result yet: the one that evaluates, then those that wait. -/
def pending (c : Checkup) : List (Nat × Bool) := evaluating c.progress ++ c.waiting

/-- The answers to calls, one result for all. -/
def answers (result : HealthResult) (calls : List (Nat × Bool)) : List Reply :=
  calls.map fun x => .answer x.1 result

/-- A bound on what is left to happen until the result is there. -/
def remaining (items : List HealthItem) : CheckupProgress → Nat
  | .unbegun => 4 * items.length + 2
  | .underway _ ev asked => 2 * ev.work + if asked then 1 else 2
  | .settled _ => 0

/-- A bound on what is left to happen until all that have called have their result. -/
def effort (c : Checkup) : Nat := remaining c.items c.progress + c.waiting.length

/-- A checkup goes on without a new call and without a cancellation, whatever the check
or the fix it waits for answers. -/
inductive Goes (c : Checkup) : Prop
  | turn (h : (c.act .turn).isSome)
  | invoke (h : (c.act .invoke).isSome)
  | checked (h : ∀ r, (c.act (.checked r)).isSome)
  | fixed (h : ∀ r, (c.act (.fixed r)).isSome)

/-- Where a checkup of these items is: what came of its history, and which calls have
their result. -/
inductive Kept (items : List HealthItem) :
    CheckupProgress → List Reply → List (Nat × Bool) → Prop
  | unbegun : Kept items .unbegun [] []
  | underway {caller : Nat} {ev : Evaluation} {asked : Bool} {needs : List HealthNeed}
    (hat : ev.At items) (hne : ev.remaining ≠ []) (hneeds : HealthNeed.Ordered items needs)
    (hlt : ∀ n ∈ needs, n.rank < ev.due + asked.toNat) :
    Kept items (.underway caller ev asked) (needs.map .need) []
  | settled {result : HealthResult} {needs : List HealthNeed} (answered : List (Nat × Bool))
    (hneeds : HealthNeed.Ordered items needs) :
    Kept items (.settled result) (needs.map .need ++ answers result answered) answered

/-- What an action does for the calls: it answers some of those that are pending, and
may be one more. -/
structure Serves (items : List HealthItem) (c : Checkup) (a : Action) (rs : List Reply)
    (answered : List (Nat × Bool)) (r : Checkup × List Reply) : Prop where
  same : r.1.items = c.items
  kept : ∃ done, Kept items r.1.progress (rs ++ r.2) (answered ++ done) ∧
    done ++ r.1.pending = c.pending ++ a.asks?.toList
  effort : r.1.effort < c.effort + 2 * a.asks?.toList.length

/-- An evaluation goes on: it has more needs, or answers its call. -/
theorem serves_proceed {caller : Nat} {ev : Evaluation} (hitems : d.items = c.items)
    (hat : ev.At items) (hneeds : HealthNeed.Ordered items needs)
    (hlt : ∀ n ∈ needs, n.rank < ev.due) (hask : a.asks? = none)
    (hpending : c.pending = (caller, ev.fix) :: d.waiting)
    (heffort : 2 * ev.work + 2 + d.waiting.length < c.effort) :
    Serves items c a (needs.map .need) [] (d.proceed caller ev) := by
  unfold proceed
  split
  · rename_i n hn
    have hne : ev.remaining ≠ [] := fun h => by simp [Evaluation.need_eq_none.2 h] at hn
    refine ⟨hitems, ⟨[], ?_, by rw [hpending, hask]; simp [pending, evaluating]⟩,
      Nat.lt_add_right _ heffort⟩
    have hk : Kept items (.underway caller ev false) (needs.map .need) [] :=
      .underway hat hne hneeds (by simpa using hlt)
    simpa using hk
  · refine ⟨hitems, ⟨[(caller, ev.fix)], Kept.settled [(caller, ev.fix)] hneeds, ?_⟩, ?_⟩
    · rw [hpending, hask]
      simp [pending, evaluating]
    · show 0 + d.waiting.length < _
      omega

/-- An evaluation whose need has been handed out goes on with the answer. -/
theorem serves_advance {caller : Nat} {ev ev' : Evaluation}
    (hprogress : c.progress = .underway caller ev true) (hadv : ev.Advance items ev')
    (hneeds : HealthNeed.Ordered items needs) (hlt : ∀ n ∈ needs, n.rank < ev.due + true.toNat)
    (hask : a.asks? = none) : Serves items c a (needs.map .need) [] (c.proceed caller ev') := by
  refine serves_proceed rfl hadv.at_items hneeds (fun n hn => ?_) hask ?_ ?_
  · -- what was handed out last is not behind what the answer makes due
    have := hlt n hn
    have := hadv.due
    simp only [Bool.toNat_true] at *
    omega
  · simp [pending, evaluating, hprogress, hadv.fix]
  · have := hadv.work
    simp only [effort, hprogress, remaining, if_true]
    omega

namespace Kept

variable {r : Checkup × List Reply}

/-- A call that is made waits. -/
theorem ask {caller : Nat} {fix : Bool} (hk : Kept items c.progress rs answered)
    (h : c.act (.ask caller fix) = some r) :
    Serves items c (.ask caller fix) rs answered r := by
  cases h
  refine ⟨rfl, ⟨[], by simpa using hk, by simp [pending, Action.asks?]⟩, ?_⟩
  simp only [effort, List.length_append, List.length_singleton, Action.asks?, Option.toList_some]
  omega

/-- The first that waits has its turn: it is evaluated, or has the result that is there. -/
theorem turn (hitems : c.items = items) (hk : Kept items c.progress rs answered)
    (h : c.act .turn = some r) : Serves items c .turn rs answered r := by
  simp only [Checkup.act] at h
  split at h
  · rename_i caller fix rest hwaiting hprogress
    cases h
    rw [hprogress] at hk
    cases hk
    have hat : Evaluation.At items (.start c.items fix) := hitems ▸ Evaluation.at_start items fix
    show Serves items c .turn (([] : List HealthNeed).map .need) [] _
    refine serves_proceed rfl hat .nil (by simp) rfl ?_ ?_
    · simp [pending, evaluating, hprogress, hwaiting, Evaluation.start]
    · simp [effort, remaining, hprogress, hwaiting, Evaluation.work, Evaluation.start]
      omega
  · rename_i caller fix rest result hwaiting hprogress
    cases h
    rw [hprogress] at hk
    cases hk with
    | settled answered hneeds =>
      refine ⟨rfl, ⟨[(caller, fix)], ?_, ?_⟩, ?_⟩
      · simpa [hprogress, answers] using Kept.settled (answered ++ [(caller, fix)]) hneeds
      · simp [pending, evaluating, hprogress, hwaiting, Action.asks?]
      · simp [effort, hwaiting, Action.asks?]
  · cases h

/-- What an evaluation needs is handed out once. -/
theorem invoke (hk : Kept items c.progress rs answered) (h : c.act .invoke = some r) :
    Serves items c .invoke rs answered r := by
  simp only [Checkup.act] at h
  split at h
  · rename_i caller ev hprogress
    obtain ⟨n, hn, rfl⟩ := Option.map_eq_some_iff.1 h
    rw [hprogress] at hk
    cases hk with
    | @underway _ _ _ needs hat hne hneeds hlt =>
      have hdue : n.rank = ev.due := Evaluation.rank_need hn
      have hconcat := hneeds.concat (hat.need hn) fun m hm => by
        simpa [hdue] using hlt m hm
      have hlast : ∀ m ∈ needs ++ [n], m.rank < ev.due + true.toNat := by
        intro m hm
        rcases List.mem_append.1 hm with hm | hm
        · exact Nat.lt_of_lt_of_le (hlt m hm) (by simp)
        · rw [List.mem_singleton.1 hm, hdue]
          exact Nat.lt_succ_self _
      have hk' : Kept items (.underway caller ev true) ((needs ++ [n]).map .need) [] :=
        .underway hat hne hconcat hlast
      refine ⟨rfl, ⟨[], by simpa using hk', ?_⟩, ?_⟩
      · simp [pending, evaluating, hprogress, Action.asks?]
      · simp [effort, remaining, hprogress, Action.asks?]
  · cases h

/-- The outcome of a check is taken by the evaluation that asked for it. -/
theorem checked {result : CheckResult} (hk : Kept items c.progress rs answered)
    (h : c.act (.checked result) = some r) : Serves items c (.checked result) rs answered r := by
  simp only [Checkup.act] at h
  split at h
  · rename_i caller ev hprogress
    rw [hprogress] at hk
    split at h
    · cases h
    · rename_i hf
      cases h
      cases hk with
      | underway hat hne hneeds hlt =>
        exact serves_advance hprogress
          (Evaluation.advance_checked hat hne (by simpa using hf) result) hneeds hlt rfl
  · cases h

/-- So is that of a fix. -/
theorem fixed {result : FixResult} (hk : Kept items c.progress rs answered)
    (h : c.act (.fixed result) = some r) : Serves items c (.fixed result) rs answered r := by
  simp only [Checkup.act] at h
  split at h
  · rename_i caller ev hprogress
    rw [hprogress] at hk
    split at h
    · cases h
      cases hk with
      | underway hat hne hneeds hlt =>
        exact serves_advance hprogress (Evaluation.advance_fixed hat hne result) hneeds hlt rfl
    · cases h
  · cases h

/-- An evaluation that is given up answers its call. -/
theorem abandon (hk : Kept items c.progress rs answered) (h : c.act .abandon = some r) :
    Serves items c .abandon rs answered r := by
  simp only [Checkup.act] at h
  split at h
  · rename_i caller ev hprogress
    cases h
    rw [hprogress] at hk
    cases hk with
    | underway hat hne hneeds hlt =>
      refine ⟨rfl, ⟨[(caller, ev.fix)], Kept.settled [(caller, ev.fix)] hneeds, ?_⟩, ?_⟩
      · simp [pending, evaluating, hprogress, Action.asks?]
      · simp [effort, remaining, hprogress, Action.asks?]
  · cases h

/-- **Every action serves the calls in their order.** -/
theorem act (hitems : c.items = items) (hk : Kept items c.progress rs answered)
    (h : c.act a = some r) : Serves items c a rs answered r := by
  cases a with
  | ask caller fix => exact hk.ask h
  | turn => exact hk.turn hitems h
  | invoke => exact hk.invoke h
  | checked result => exact hk.checked h
  | fixed result => exact hk.fixed h
  | abandon => exact hk.abandon h

end Kept

/-- A call that has no result yet is not forgotten: something goes on. -/
theorem Kept.goes (hk : Kept items c.progress rs answered) : c.pending = [] ∨ c.Goes := by
  generalize hp : c.progress = p at hk
  have waits : evaluating p = [] → ((c.act .turn).isSome ∨ c.waiting = []) →
      c.pending = [] ∨ c.Goes := by
    rintro hev (hturn | hwaiting)
    · exact .inr (.turn hturn)
    · exact .inl (by rw [pending, hp, hev, hwaiting, List.nil_append])
  cases hk with
  | unbegun =>
    refine waits rfl ?_
    cases hw : c.waiting <;> simp [Checkup.act, hw, hp]
  | settled =>
    refine waits rfl ?_
    cases hw : c.waiting <;> simp [Checkup.act, hw, hp]
  | @underway caller ev asked _ hat hne =>
    right
    cases asked with
    | false =>
      have hneed : ev.need? ≠ none := mt Evaluation.need_eq_none.1 hne
      exact .invoke (by simpa [Checkup.act, hp, Option.isSome_iff_ne_none] using hneed)
    | true =>
      cases hf : ev.fixing with
      | false => exact .checked fun r => by simp [Checkup.act, hp, hf]
      | true => exact .fixed fun r => by simp [Checkup.act, hp, hf]

/-- What holds behind every history of a checkup of these items. -/
theorem Follows.kept (h : Follows (ofItems items) as c rs) :
    c.items = items ∧ as.length + c.effort ≤ 4 * items.length + 2 + 2 * (asks as).length ∧
      ∃ answered, Kept items c.progress rs answered ∧ asks as = answered ++ c.pending := by
  generalize hb : ofItems items = b at h
  induction h with
  | refl =>
    subst hb
    exact ⟨rfl, Nat.le_of_eq (by simp [effort, remaining, ofItems, asks]), [], .unbegun, rfl⟩
  | @concat as c d a rs more _ hact ih =>
    obtain ⟨hitems, hlength, answered, hk, hasks⟩ := ih
    obtain ⟨hsame, ⟨done, hk', hdone⟩, heffort⟩ := hk.act hitems hact
    have hconcat : asks (as ++ [a]) = asks as ++ a.asks?.toList := by
      rw [asks, List.filterMap_append, ← asks]
      cases a <;> rfl
    refine ⟨hsame.trans hitems, ?_, answered ++ done, hk', ?_⟩
    · have heffort : d.effort < c.effort + 2 * a.asks?.toList.length := heffort
      rw [hconcat, List.length_append, List.length_append, List.length_singleton]
      omega
    · rw [hconcat, hasks, List.append_assoc, ← hdone, List.append_assoc]

/-- **A checkup evaluates once**, whatever its calls wish, however they and the
evaluation interleave, and whenever the call that evaluates is canceled. Checks and fixes
are handed out before any call has its result, no two the same; the calls are answered in
their order, the one that evaluates first, and all with one result, which may be the error
of a canceled evaluation. No call is left without: as long as one has no result something
goes on, and with no more calls that comes to an end. -/
theorem Follows.evaluated_once (h : Follows (ofItems items) as c rs) :
    ∃ (needs : List HealthNeed) (answered : List (Nat × Bool)) (result : HealthResult),
      rs = needs.map .need ++ answers result answered ∧
      needs.Nodup ∧ (∀ n ∈ needs, n.Of items) ∧
      asks as = answered ++ c.pending ∧
      (answered ≠ [] → c.progress = .settled result) ∧
      (c.pending = [] ∨ c.Goes) ∧
      as.length ≤ 4 * items.length + 2 + 2 * (asks as).length := by
  obtain ⟨-, hlength, answered, hk, hasks⟩ := h.kept
  have hbound : as.length ≤ 4 * items.length + 2 + 2 * (asks as).length := by omega
  have hgoes := hk.goes
  generalize c.progress = p at hk
  cases hk with
  | unbegun =>
    exact ⟨[], [], .error .canceled, rfl, .nil, by simp, hasks, by simp, hgoes, hbound⟩
  | @underway _ _ _ needs _ _ hneeds =>
    exact ⟨needs, [], .error .canceled, by simp [answers], hneeds.nodup, hneeds.mem, hasks,
      by simp, hgoes, hbound⟩
  | @settled result needs _ hneeds =>
    exact ⟨needs, answered, result, rfl, hneeds.nodup, hneeds.mem, hasks, fun _ => rfl, hgoes,
      hbound⟩

/-- The second of two calls, which is not canceled, has the error of the first. -/
theorem evaluated_once_canceled :
    ∃ c, Follows (ofItems [⟨"dir", true⟩])
        [.ask 7 true, .ask 9 false, .turn, .invoke, .abandon, .turn] c
        [.need (.check 0), .answer 7 (.error .canceled), .answer 9 (.error .canceled)] ∧
      ∃ (needs : List HealthNeed) (answered : List (Nat × Bool)) (result : HealthResult),
        [.need (.check 0), .answer 7 (.error .canceled), .answer 9 (.error .canceled)] =
          needs.map .need ++ answers result answered ∧
        needs.Nodup ∧ (∀ n ∈ needs, n.Of [⟨"dir", true⟩]) ∧
        [(7, true), (9, false)] = answered ++ c.pending ∧
        (answered ≠ [] → c.progress = .settled result) ∧
        (c.pending = [] ∨ c.Goes) ∧ 6 ≤ 4 * 1 + 2 + 2 * 2 := by
  have h₁ := Follows.concat (b := ofItems [⟨"dir", true⟩]) (a := .ask 7 true) .refl rfl
  have h₂ := Follows.concat (a := .ask 9 false) h₁ rfl
  have h₃ := Follows.concat (a := .turn) h₂ rfl
  have h₄ := Follows.concat (a := .invoke) h₃ rfl
  have h₅ := Follows.concat (a := .abandon) h₄ rfl
  have h₆ := Follows.concat (a := .turn) h₅ rfl
  exact ⟨_, h₆, h₆.evaluated_once⟩

end Checkup

end Conductor
