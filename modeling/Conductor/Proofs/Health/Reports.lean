import Conductor.Proofs.Health.Table
/-!
# Health — reports go by the table

A history of a checkup in which all answer as the trials say (`Checkup.Tried`) gives the
report of the table, whoever asks meanwhile, unless the call that evaluates is found
canceled when something is about to be done: then nothing comes behind that, and the
result is the error (`Tried.tabled`).

Where a checkup stands is `Checkup.Standing`: all that has been handed out is what is
called up to the place of the evaluation, or the result is there.
-/

namespace Conductor

/-- **The result of an evaluation** that called these needs. -/
structure Evaluated (trials : List Trial) (canceled : HealthNeed → Prop) (fix : Bool)
    (needs : List HealthNeed) (result : HealthResult) : Prop where
  called : ∀ n, n ∈ needs ↔ n.Called trials canceled fix
  /-- Nothing canceled, the report is that of the table. -/
  report : (∀ n : HealthNeed, n.Needed trials fix → ¬ canceled n) →
    result = .ok (Trial.report fix trials)
  canceled : ∀ n : HealthNeed, n.Needed trials fix → canceled n → result = .error .canceled

namespace Checkup

/-- What the evaluation waits for. -/
def awaited? (c : Checkup) : Option HealthNeed :=
  match c.progress with
  | .underway _ ev true => ev.need?
  | _ => none

/-- What answers is what the trials say. -/
def AnswersBy (trials : List Trial) (c : Checkup) : Action → Prop
  | .checked r => ∃ i t, c.awaited? = some (.check i) ∧ trials[i]? = some t ∧ t.check = r
  | .fixed r => ∃ i t, c.awaited? = some (.fix i) ∧ trials[i]? = some t ∧ t.fix = some r
  | _ => True

/-- The call that evaluates looks whether it is canceled before anything is done: what is
called then does not answer, and only then the evaluation is given up. -/
def Heeds (canceled : HealthNeed → Prop) (c : Checkup) : Action → Prop
  | .checked _ => ∀ n, c.awaited? = some n → ¬ canceled n
  | .fixed _ => ∀ n, c.awaited? = some n → ¬ canceled n
  | .abandon => ∀ n, c.awaited? = some n → canceled n
  | _ => True

/-- A history in which all answer as the trials say, and cancellations are heeded. -/
inductive Tried (trials : List Trial) (canceled : HealthNeed → Prop) (b : Checkup) :
    List Action → Checkup → List Reply → Prop
  | refl : Tried trials canceled b [] b []
  | concat {as : List Action} {c d : Checkup} {a : Action} {rs more : List Reply} :
    Tried trials canceled b as c rs → c.act a = some (d, more) → c.AnswersBy trials a →
      c.Heeds canceled a → Tried trials canceled b (as ++ [a]) d (rs ++ more)

/-- A checkup goes on without a new call, by the trials and heeding cancellations. -/
def GoesOn (trials : List Trial) (canceled : HealthNeed → Prop) (c : Checkup) : Prop :=
  ∃ a, a.asks? = none ∧ c.AnswersBy trials a ∧ c.Heeds canceled a ∧ (c.act a).isSome

end Checkup

/-! ## Where a checkup stands -/

namespace Checkup

variable {trials : List Trial} {canceled : HealthNeed → Prop} {b c d : Checkup} {a : Action}
  {as : List Action} {rs more : List Reply} {needs : List HealthNeed} {first : Option (Nat × Bool)}
  {caller : Nat} {fix : Bool} {ev : Evaluation}

/-- What was handed out. -/
def needsOf (rs : List Reply) : List HealthNeed :=
  rs.filterMap fun
    | .need n => some n
    | .answer _ _ => none

@[simp] theorem needsOf_append : needsOf (rs ++ more) = needsOf rs ++ needsOf more := by
  simp [needsOf]

@[simp] theorem needsOf_answers (result : HealthResult) (calls : List (Nat × Bool)) :
    needsOf (answers result calls) = [] := by
  simp [needsOf, answers]

@[simp] theorem needsOf_needs : needsOf (needs.map .need) = needs := by
  rw [needsOf, List.filterMap_map]
  exact List.filterMap_some

/-- A history of trials is a history. -/
theorem Tried.follows (h : Tried trials canceled b as c rs) : Follows b as c rs := by
  induction h with
  | refl => exact .refl
  | concat _ hact _ _ ih => exact ih.concat hact

/-- Where a checkup of the trials stands that was asked for first by the call given. -/
inductive Standing (trials : List Trial) (canceled : HealthNeed → Prop)
    (first : Option (Nat × Bool)) : CheckupProgress → List HealthNeed → Prop
  | unbegun : Standing trials canceled first .unbegun []
  | underway {caller : Nat} {ev : Evaluation} {asked : Bool} {needs : List HealthNeed}
    (hfirst : first = some (caller, ev.fix)) (hstands : ev.Stands trials canceled)
    (hne : ev.remaining ≠ []) (hcalled : CalledTo trials ev.fix (ev.due + asked.toNat) needs) :
    Standing trials canceled first (.underway caller ev asked) needs
  | settled {caller : Nat} {fix : Bool} {needs : List HealthNeed} {result : HealthResult}
    (hfirst : first = some (caller, fix))
    (hrising : needs.Pairwise fun m n => m.rank < n.rank)
    (hresult : Evaluated trials canceled fix needs result) :
    Standing trials canceled first (.settled result) needs

namespace Standing

/-- An evaluation goes on, or has the report of the table. -/
theorem proceed (hfirst : first = some (caller, ev.fix)) (hstands : ev.Stands trials canceled)
    (hcalled : CalledTo trials ev.fix ev.due needs) :
    Standing trials canceled first (d.proceed caller ev).1.progress
      (needs ++ needsOf (d.proceed caller ev).2) := by
  unfold Checkup.proceed
  split
  · rename_i n hn
    have hne := Evaluation.remaining_ne_nil hn
    show Standing trials canceled first (.underway caller ev false) (needs ++ [])
    rw [List.append_nil]
    exact .underway hfirst hstands hne hcalled
  · rename_i hnone
    have hnil := Evaluation.need_eq_none.1 hnone
    have hclear : ∀ n : HealthNeed, n.Needed trials ev.fix → ¬ canceled n :=
      fun n hn => hstands.clear n hn (hstands.rank_lt hnil hn)
    show Standing trials canceled first (.settled (.ok ev.report)) (needs ++ [])
    rw [List.append_nil]
    refine .settled hfirst hcalled.rising ⟨fun n => ?_, fun _ => ?_, fun n hn hc => ?_⟩
    · rw [hcalled.mem n]
      constructor
      · rintro ⟨hn, -⟩
        exact ⟨hn, fun m hm hc => absurd hc (hclear m hm)⟩
      · rintro ⟨hn, -⟩
        exact ⟨hn, hstands.rank_lt hnil hn⟩
    · rw [hstands.report_eq hnil]
    · exact absurd hc (hclear n hn)

/-- What is waited for answers, and the evaluation goes on. -/
theorem onward {ev' : Evaluation} (hfirst : first = some (caller, ev.fix))
    (honward : ev.Onward trials canceled ev')
    (hcalled : CalledTo trials ev.fix (ev.due + 1) needs) :
    Standing trials canceled first (c.proceed caller ev').1.progress
      (needs ++ needsOf (c.proceed caller ev').2) := by
  refine proceed (honward.fix ▸ hfirst) honward.stands ?_
  rw [honward.fix]
  exact hcalled.raise honward.due

/-- An evaluation that is given up called nothing behind what it waits for. -/
theorem abandoned {n : HealthNeed} (hfirst : first = some (caller, ev.fix))
    (hstands : ev.Stands trials canceled) (hn : ev.need? = some n) (hcanceled : canceled n)
    (hcalled : CalledTo trials ev.fix (ev.due + 1) needs) :
    Standing trials canceled first (.settled (.error .canceled)) needs := by
  have hneeded := hstands.needed hn
  have hrank : n.rank = ev.due := Evaluation.rank_need hn
  refine .settled hfirst hcalled.rising ⟨fun m => ?_, fun hclear => ?_, fun _ _ _ => rfl⟩
  · rw [hcalled.mem m]
    constructor
    · rintro ⟨hm, hlt⟩
      refine ⟨hm, fun m' hm' hc => ?_⟩
      -- nothing in front of what is waited for was canceled
      have hnot : ¬ m'.rank < ev.due := fun h => hstands.clear m' hm' h hc
      omega
    · rintro ⟨hm, hle⟩
      have hle := hle n hneeded hcanceled
      exact ⟨hm, by omega⟩
  · exact absurd hcanceled (hclear n hneeded)

/-- The first that waits has its turn, and evaluates. -/
theorem turn (h : Standing trials canceled first c.progress needs)
    (hitems : c.items = trials.map Trial.item)
    (hturn : ∀ caller fix rest, c.progress = .unbegun → c.waiting = (caller, fix) :: rest →
      first = some (caller, fix))
    (hact : c.act .turn = some (d, more)) :
    Standing trials canceled first d.progress (needs ++ needsOf more) := by
  simp only [Checkup.act] at hact
  split at hact
  · rename_i caller fix rest hwaiting hprogress
    rw [hprogress] at h
    cases h
    have hfirst := hturn caller fix rest hprogress hwaiting
    have hstands : (Evaluation.start (trials.map Trial.item) fix).Stands trials canceled :=
      Evaluation.stands_start fix
    have hproceed := proceed (d := { c with items := trials.map Trial.item, waiting := rest })
      hfirst hstands CalledTo.nil
    rw [Option.some.injEq, hitems] at hact
    rwa [hact] at hproceed
  · rename_i caller fix rest result hwaiting hprogress
    cases hact
    simpa [needsOf, hprogress] using h
  · cases hact

/-- What is needed is handed out. -/
theorem invoke (h : Standing trials canceled first c.progress needs)
    (hact : c.act .invoke = some (d, more)) :
    Standing trials canceled first d.progress (needs ++ needsOf more) := by
  simp only [Checkup.act] at hact
  split at hact
  · rename_i caller ev hprogress
    obtain ⟨n, hn, heq⟩ := Option.map_eq_some_iff.1 hact
    cases heq
    rw [hprogress] at h
    obtain - | ⟨hfirst, hstands, hne, hcalled⟩ := h
    have hrank : n.rank = ev.due := Evaluation.rank_need hn
    have hcalled : CalledTo trials ev.fix n.rank needs := by
      simpa [hrank] using hcalled
    refine .underway hfirst hstands hne ?_
    rw [Bool.toNat_true, ← hrank]
    exact hcalled.concat (hstands.needed hn)
  · cases hact

/-- The check that is waited for answers. -/
theorem checked {r : CheckResult} (h : Standing trials canceled first c.progress needs)
    (hact : c.act (.checked r) = some (d, more)) (hanswers : c.AnswersBy trials (.checked r))
    (hheeds : c.Heeds canceled (.checked r)) :
    Standing trials canceled first d.progress (needs ++ needsOf more) := by
  obtain ⟨i, t, hawaited, ht, rfl⟩ := hanswers
  have hclear := hheeds _ hawaited
  simp only [Checkup.act] at hact
  split at hact
  · rename_i caller ev hprogress
    rw [hprogress] at h
    obtain - | ⟨hfirst, hstands, hne, hcalled⟩ := h
    simp only [awaited?, hprogress] at hawaited
    split at hact
    · cases hact
    · rename_i hf
      have hf : ev.fixing = false := by simpa using hf
      obtain rfl : i = ev.place :=
        HealthNeed.check.inj (Evaluation.eq_check_of_due hf (Evaluation.rank_need hawaited))
      have honward := onward (c := c) hfirst (hstands.checked ht hf hclear) hcalled
      rw [Option.some.injEq] at hact
      rwa [hact] at honward
  · cases hact

/-- The fix that is waited for answers. -/
theorem fixed {r : FixResult} (h : Standing trials canceled first c.progress needs)
    (hact : c.act (.fixed r) = some (d, more)) (hanswers : c.AnswersBy trials (.fixed r))
    (hheeds : c.Heeds canceled (.fixed r)) :
    Standing trials canceled first d.progress (needs ++ needsOf more) := by
  obtain ⟨i, t, hawaited, ht, hr⟩ := hanswers
  have hclear := hheeds _ hawaited
  simp only [Checkup.act] at hact
  split at hact
  · rename_i caller ev hprogress
    rw [hprogress] at h
    obtain - | ⟨hfirst, hstands, hne, hcalled⟩ := h
    simp only [awaited?, hprogress] at hawaited
    split at hact
    · rename_i hf
      obtain rfl : i = ev.place :=
        HealthNeed.fix.inj (Evaluation.eq_fix_of_due hf (Evaluation.rank_need hawaited))
      have honward := onward (c := c) hfirst (hstands.fixed ht hr hf hclear) hcalled
      rw [Option.some.injEq] at hact
      rwa [hact] at honward
    · cases hact
  · cases hact

/-- The evaluation is given up. -/
theorem abandon (h : Standing trials canceled first c.progress needs)
    (hact : c.act .abandon = some (d, more)) (hheeds : c.Heeds canceled .abandon) :
    Standing trials canceled first d.progress (needs ++ needsOf more) := by
  simp only [Checkup.act] at hact
  split at hact
  · rename_i caller ev hprogress
    cases hact
    rw [hprogress] at h
    obtain - | ⟨hfirst, hstands, hne, hcalled⟩ := h
    obtain ⟨n, hn⟩ := Evaluation.exists_need hne
    have hcanceled : canceled n := hheeds n (by simp [awaited?, hprogress, hn])
    simpa [needsOf] using abandoned hfirst hstands hn hcanceled hcalled
  · cases hact

/-- **The step lemma.** -/
theorem act (h : Standing trials canceled first c.progress needs)
    (hitems : c.items = trials.map Trial.item)
    (hturn : ∀ caller fix rest, c.progress = .unbegun → c.waiting = (caller, fix) :: rest →
      first = some (caller, fix))
    (hact : c.act a = some (d, more)) (hanswers : c.AnswersBy trials a)
    (hheeds : c.Heeds canceled a) :
    Standing trials canceled first d.progress (needs ++ needsOf more) := by
  cases a with
  | ask caller fix =>
    cases hact
    simpa [needsOf] using h
  | turn => exact h.turn hitems hturn hact
  | invoke => exact h.invoke hact
  | checked r => exact h.checked hact hanswers hheeds
  | fixed r => exact h.fixed hact hanswers hheeds
  | abandon => exact h.abandon hact hheeds

/-- Something goes on that answers by the trials and heeds the cancellation. -/
theorem goesOn (h : Standing trials canceled first c.progress needs) (hgoes : c.Goes) :
    c.GoesOn trials canceled := by
  -- the case is that of what the checkup waits for, which is done unless it is canceled
  have waits : ∀ {caller ev}, c.progress = .underway caller ev true → c.GoesOn trials canceled := by
    intro caller ev hprogress
    rw [hprogress] at h
    obtain - | ⟨-, hstands, hne, -⟩ := h
    obtain ⟨n, hn⟩ := Evaluation.exists_need hne
    have hawaited : c.awaited? = some n := by simp only [awaited?, hprogress, hn]
    by_cases hcanceled : canceled n
    · refine ⟨.abandon, rfl, trivial, fun m hm => ?_, by simp [Checkup.act, hprogress]⟩
      rw [hawaited, Option.some.injEq] at hm
      exact hm ▸ hcanceled
    · have hclear : ∀ m, c.awaited? = some m → ¬ canceled m := by
        intro m hm
        rw [hawaited, Option.some.injEq] at hm
        exact hm ▸ hcanceled
      obtain ⟨t, ht⟩ := hstands.trial hne
      have hrank := Evaluation.rank_need hn
      cases hf : ev.fixing with
      | false =>
        have hcheck : n = .check ev.place := Evaluation.eq_check_of_due hf hrank
        exact ⟨.checked t.check, rfl, ⟨ev.place, t, hcheck ▸ hawaited, ht, rfl⟩, hclear,
          by simp [Checkup.act, hprogress, hf]⟩
      | true =>
        have hfix : n = .fix ev.place := Evaluation.eq_fix_of_due hf hrank
        obtain ⟨-, t, ht, -, hfixer⟩ := hstands.fails hf
        obtain ⟨r, hr⟩ := Option.isSome_iff_exists.1 hfixer
        exact ⟨.fixed r, rfl, ⟨ev.place, t, hfix ▸ hawaited, ht, hr⟩, hclear,
          by simp [Checkup.act, hprogress, hf]⟩
  rcases hgoes with hturn | hinvoke | hchecked | hfixed
  · exact ⟨.turn, rfl, trivial, trivial, hturn⟩
  · exact ⟨.invoke, rfl, trivial, trivial, hinvoke⟩
  · have hsome := hchecked (.error ⟨"", []⟩)
    simp only [Checkup.act] at hsome
    split at hsome
    · rename_i caller ev hprogress
      exact waits hprogress
    · cases hsome
  · have hsome := hfixed (.ok "")
    simp only [Checkup.act] at hsome
    split at hsome
    · rename_i caller ev hprogress
      exact waits hprogress
    · cases hsome

/-- A call that comes later is not the first. -/
theorem later (h : Standing trials canceled first c.progress needs) {first' : Option (Nat × Bool)}
    (hfirst : ∀ x, first = some x → first' = some x) :
    Standing trials canceled first' c.progress needs := by
  generalize c.progress = p at h
  cases h with
  | unbegun => exact .unbegun
  | underway h hstands hne hcalled => exact .underway (hfirst _ h) hstands hne hcalled
  | settled h hrising hresult => exact .settled (hfirst _ h) hrising hresult

end Standing

/-- **A history of trials stands by the table.** -/
theorem Tried.standing (h : Tried trials canceled (ofItems (trials.map Trial.item)) as c rs) :
    Standing trials canceled (asks as).head? c.progress (needsOf rs) := by
  generalize hb : ofItems (trials.map Trial.item) = b at h
  induction h with
  | refl =>
    subst hb
    exact .unbegun
  | @concat as c d a rs more history hact hanswers hheeds ih =>
    subst hb
    obtain ⟨hitems, -, answered, hkept, hasks⟩ := history.follows.kept
    have hturn : ∀ caller fix rest, c.progress = .unbegun → c.waiting = (caller, fix) :: rest →
        (asks as).head? = some (caller, fix) := by
      intro caller fix rest hprogress hwaiting
      rw [hprogress] at hkept
      cases hkept
      rw [hasks, pending, hprogress, hwaiting]
      rfl
    have hstep := ih.act hitems hturn hact hanswers hheeds
    rw [needsOf_append]
    refine hstep.later fun x hx => ?_
    rw [asks, List.filterMap_append, ← asks, List.head?_append, hx]
    rfl

/-- What has been handed out is what is called, in the order of the items. -/
theorem Standing.called (h : Standing trials canceled (some (caller, fix)) c.progress needs) :
    needs.Pairwise (fun m n => m.rank < n.rank) ∧
      ∀ n ∈ needs, n.Called trials canceled fix := by
  generalize c.progress = p at h
  cases h with
  | unbegun => exact ⟨.nil, by simp⟩
  | @underway _ ev asked _ hfirst hstands hne hcalled =>
    cases hfirst
    refine ⟨hcalled.rising, fun n hn => ?_⟩
    obtain ⟨hneeded, hlt⟩ := (hcalled.mem n).1 hn
    refine ⟨hneeded, fun m hm hcanceled => ?_⟩
    have hnot : ¬ m.rank < ev.due := fun h => hstands.clear m hm h hcanceled
    have hasked : asked.toNat ≤ 1 := Bool.toNat_le _
    omega
  | settled hfirst hrising hresult =>
    cases hfirst
    exact ⟨hrising, fun n hn => (hresult.called n).1 hn⟩

/-- **What came of a history of trials**: the needs that were handed out, and one result for
the calls that were answered. -/
theorem Tried.replies (h : Tried trials canceled (ofItems (trials.map Trial.item)) as c rs)
    (hfirst : (asks as).head? = some (caller, fix)) :
    ∃ (answered : List (Nat × Bool)) (result : HealthResult),
      rs = (needsOf rs).map .need ++ answers result answered ∧ asks as = answered ++ c.pending ∧
      (answered ≠ [] → Evaluated trials canceled fix (needsOf rs) result) := by
  have hstanding := h.standing
  obtain ⟨-, -, answered, hkept, hasks⟩ := h.follows.kept
  rw [hfirst] at hstanding
  generalize c.progress = p at hkept hstanding
  cases hkept with
  | unbegun => exact ⟨[], .error .canceled, rfl, hasks, by simp⟩
  | underway => exact ⟨[], .error .canceled, by simp [answers], hasks, by simp⟩
  | @settled result needs answered =>
    refine ⟨answered, result, by simp, hasks, fun _ => ?_⟩
    obtain - | - | ⟨hsome, -, hevaluated⟩ := hstanding
    cases hsome
    exact hevaluated

/-- A call that has no result is not forgotten: something goes on by the trials. -/
theorem Tried.goesOn (h : Tried trials canceled (ofItems (trials.map Trial.item)) as c rs) :
    c.pending = [] ∨ c.GoesOn trials canceled := by
  obtain ⟨-, -, answered, hkept, -⟩ := h.follows.kept
  exact hkept.goes.imp_right h.standing.goesOn

/-- Who has called first stays the first. -/
theorem head?_asks_concat {first : Nat × Bool} (h : (asks as).head? = some first) (a : Action) :
    (asks (as ++ [a])).head? = some first := by
  rw [asks, List.filterMap_append, ← asks, List.head?_append, h]
  rfl

/-- The call that evaluates is the first, and it is found canceled where it waits. -/
theorem Tried.evaluates {asked : Bool}
    (h : Tried trials canceled (ofItems (trials.map Trial.item)) as c rs)
    (hprogress : c.progress = .underway caller ev asked) :
    (asks as).head? = some (caller, ev.fix) ∧ ∃ n, ev.need? = some n := by
  have hstanding := h.standing
  rw [hprogress] at hstanding
  obtain - | ⟨hfirst, -, hne, -⟩ := hstanding
  exact ⟨hfirst, Evaluation.exists_need hne⟩

/-- If there are answers, the first is that to the first call. -/
theorem first_answered {answered : List (Nat × Bool)} {x : Nat × Bool}
    (hasks : asks as = answered ++ c.pending) (hfirst : (asks as).head? = some (caller, fix))
    (hx : x ∈ answered) : ∃ rest, answered = (caller, fix) :: rest := by
  obtain ⟨y, rest, rfl⟩ := List.exists_cons_of_ne_nil (List.ne_nil_of_mem hx)
  rw [hasks, List.cons_append, List.head?_cons, Option.some.injEq] at hfirst
  exact ⟨rest, by rw [hfirst]⟩

/-- As long as the first call has no result, none has: all are pending. -/
theorem Tried.unanswered (h : Tried trials canceled (ofItems (trials.map Trial.item)) as c rs)
    (hfirst : (asks as).head? = some (caller, fix)) (hnone : ∀ r, Reply.answer caller r ∉ rs) :
    asks as = c.pending ∧ as.length ≤ 4 * trials.length + 2 + (asks as).length := by
  obtain ⟨answered, result, hrs, hasks, -⟩ := h.replies hfirst
  have hanswered : answered = [] := by
    refine List.eq_nil_iff_forall_not_mem.2 fun x hx => ?_
    obtain ⟨rest, rfl⟩ := first_answered hasks hfirst hx
    refine hnone result ?_
    rw [hrs]
    exact List.mem_append_right _ (List.mem_cons_self ..)
  rw [hanswered, List.nil_append] at hasks
  have hlength := h.follows.kept.2.1
  rw [List.length_map] at hlength
  -- at least one more thing happens for each that waits, and for the one that evaluates
  have heffort : c.pending.length ≤ c.effort := by
    rw [pending, List.length_append, effort]
    cases c.progress with
    | unbegun => simp [evaluating]
    | settled result => simp [evaluating]
    | underway caller ev asked =>
      cases asked with
      | false => simp [evaluating, remaining]
      | true => simp [evaluating, remaining]
  refine ⟨hasks, ?_⟩
  rw [← hasks] at heffort
  omega

/-- **Where nobody is canceled**, every answer is the report of the table, and the first is
that to the first call. -/
theorem Tried.answer {k : Nat} {r : HealthResult}
    (h : Tried trials (fun _ => False) (ofItems (trials.map Trial.item)) as c rs)
    (hfirst : (asks as).head? = some (caller, fix)) (hmem : .answer k r ∈ rs) :
    r = .ok (Trial.report fix trials) ∧ .answer caller r ∈ rs := by
  obtain ⟨answered, result, hrs, hasks, hresult⟩ := h.replies hfirst
  rw [hrs] at hmem ⊢
  obtain ⟨x, hx, heq⟩ : ∃ x ∈ answered, Reply.answer x.1 result = .answer k r := by
    simpa [answers] using hmem
  cases heq
  obtain ⟨rest, rfl⟩ := first_answered hasks hfirst hx
  refine ⟨(hresult (List.cons_ne_nil _ _)).report fun _ _ => not_false, ?_⟩
  exact List.mem_append_right _ (List.mem_cons_self ..)

/-- **A checkup gives the report of the table.** Let all answer as the trials say, and let
the call that evaluates be found canceled at some of the needs, or at none. What is handed
out are the checks of the items, each followed by the fix of its item if that failed, can
be fixed, and the first call wishes it; each is handed out once, in the order of the items,
and none behind the first at which the call is canceled. All calls that have a result have
the same: the report of the table if nothing was canceled, and the error otherwise. No
call is left without: as long as one has no result something goes on, and with no more
calls that comes to an end. -/
theorem Tried.tabled (h : Tried trials canceled (ofItems (trials.map Trial.item)) as c rs)
    (hfirst : (asks as).head? = some (caller, fix)) :
    ∃ (needs : List HealthNeed) (answered : List (Nat × Bool)) (result : HealthResult),
      rs = needs.map .need ++ answers result answered ∧
      asks as = answered ++ c.pending ∧
      needs.Pairwise (fun m n => m.rank < n.rank) ∧
      (∀ n ∈ needs, n.Called trials canceled fix) ∧
      (answered ≠ [] → Evaluated trials canceled fix needs result) ∧
      (c.pending = [] ∨ c.GoesOn trials canceled) ∧
      as.length ≤ 4 * trials.length + 2 + 2 * (asks as).length := by
  have hstanding := h.standing
  rw [hfirst] at hstanding
  obtain ⟨hrising, hcalled⟩ := hstanding.called
  obtain ⟨answered, result, hrs, hasks, hresult⟩ := h.replies hfirst
  have hbound : as.length ≤ 4 * trials.length + 2 + 2 * (asks as).length := by
    have hlength := h.follows.kept.2.1
    rw [List.length_map] at hlength
    omega
  exact ⟨needsOf rs, answered, result, hrs, hasks, hrising, hcalled, hresult, h.goesOn, hbound⟩

/-- A directory is made, a check cannot be done, and a call that comes later is answered with
the report of the first. -/
theorem tabled_of_repair :
    ∃ (trials : List Trial) (c : Checkup) (report : HealthReport),
      trials = [⟨"dir", .ok ⟨false, "gone"⟩, some (.ok "made")⟩,
        ⟨"port", .error ⟨"denied", []⟩, some (.ok "freed")⟩] ∧
      report = ⟨[⟨"dir", .failed, "gone"⟩, ⟨"port", .aborted, "denied; error: "⟩],
        [⟨"dir", .ok, "made"⟩, ⟨"port", .omitted, "check aborted; fix not attempted"⟩]⟩ ∧
      Tried trials (fun _ => False) (ofItems (trials.map Trial.item))
        [.ask 7 true, .turn, .invoke, .checked (.ok ⟨false, "gone"⟩), .ask 9 false, .invoke,
          .fixed (.ok "made"), .invoke, .checked (.error ⟨"denied", []⟩), .turn] c
        [.need (.check 0), .need (.fix 0), .need (.check 1), .answer 7 (.ok report),
          .answer 9 (.ok report)] ∧
      ∃ (needs : List HealthNeed) (answered : List (Nat × Bool)) (result : HealthResult),
        [.need (.check 0), .need (.fix 0), .need (.check 1), .answer 7 (.ok report),
          .answer 9 (.ok report)] = needs.map .need ++ answers result answered ∧
        [(7, true), (9, false)] = answered ++ c.pending ∧
        needs.Pairwise (fun m n => m.rank < n.rank) ∧
        (∀ n ∈ needs, n.Called trials (fun _ => False) true) ∧
        (answered ≠ [] → Evaluated trials (fun _ => False) true needs result) ∧
        (c.pending = [] ∨ c.GoesOn trials fun _ => False) ∧ 10 ≤ 4 * 2 + 2 + 2 * 2 := by
  have h₀ : Tried [⟨"dir", .ok ⟨false, "gone"⟩, some (.ok "made")⟩,
      ⟨"port", .error ⟨"denied", []⟩, some (.ok "freed")⟩] (fun _ => False)
    (ofItems [⟨"dir", true⟩, ⟨"port", true⟩]) [] _ [] := .refl
  have h₁ := Tried.concat (a := .ask 7 true) h₀ rfl trivial trivial
  have h₂ := Tried.concat (a := .turn) h₁ rfl trivial trivial
  have h₃ := Tried.concat (a := .invoke) h₂ rfl trivial trivial
  have h₄ := Tried.concat (a := .checked (.ok ⟨false, "gone"⟩)) h₃ rfl ⟨0, _, rfl, rfl, rfl⟩
    fun _ _ => not_false
  have h₅ := Tried.concat (a := .ask 9 false) h₄ rfl trivial trivial
  have h₆ := Tried.concat (a := .invoke) h₅ rfl trivial trivial
  have h₇ := Tried.concat (a := .fixed (.ok "made")) h₆ rfl ⟨0, _, rfl, rfl, rfl⟩
    fun _ _ => not_false
  have h₈ := Tried.concat (a := .invoke) h₇ rfl trivial trivial
  have h₉ := Tried.concat (a := .checked (.error ⟨"denied", []⟩)) h₈ rfl ⟨1, _, rfl, rfl, rfl⟩
    fun _ _ => not_false
  have h₁₀ := Tried.concat (a := .turn) h₉ rfl trivial trivial
  exact ⟨_, _, _, rfl, rfl, h₁₀, h₁₀.tabled rfl⟩

end Checkup

end Conductor
