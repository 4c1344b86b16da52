import Conductor.Health.Fixer
import Mathlib.Data.List.Basic
/-!
# Health — which steps a fixer takes

A fixer made of others goes through them until one decides: `all` until one does not
succeed, `any` until one does not fail. The two are dual, so what a row of fixers comes to
is said once, for the results that let the row go on: they all have such a result
(`Passes`), or one has another, and those behind it are not taken (`StopsAt`). A row of
either kind is read off by its first fixer (`stopsAt_cons`, `stopsAt_cons_of_next`), which
is how the loops go.

What is called inside, at any depth, is read from the calls themselves: steps are noted when
they are taken (`noted`), and what is noted is a sublist of the steps in the fixer, from left
to right (`Calls`). A step that never comes to an end is a result too, and ends every row.
-/

namespace Conductor

namespace Fixer

variable {α β σ κ : Type}

/-! ## Taken one after another -/

/-- What comes of each, and the state behind them, when all are taken one after another. -/
def inTurn (act : α → σ → Option FixResult × σ) : List α → σ → List (Option FixResult) × σ
  | [], s => ([], s)
  | a :: as, s => ((act a s).1 :: (inTurn act as (act a s).2).1, (inTurn act as (act a s).2).2)

/-- All are taken, and have results of one kind. -/
def Passes (kind : κ → FixResult) (act : α → σ → Option FixResult × σ) (as : List α) (s : σ)
    (ks : List κ) (t : σ) : Prop :=
  inTurn act as s = (ks.map fun k => some (kind k), t)

/-- They are taken up to one that has the result `r`; those before it have results of one kind,
and none behind it is taken. -/
def StopsAt (kind : κ → FixResult) (act : α → σ → Option FixResult × σ) (as : List α) (s : σ)
    (r : Option FixResult) (t : σ) : Prop :=
  ∃ (before : List α) (a : α) (behind : List α) (ks : List κ), as = before ++ a :: behind ∧
    inTurn act (before ++ [a]) s = ((ks.map fun k => some (kind k)) ++ [r], t)

variable {act : α → σ → Option FixResult × σ} {kind : κ → FixResult} {a : α} {as bs : List α}
  {s s' t : σ} {r r' : Option FixResult} {ks : List κ} {k : κ}

theorem inTurn_append : inTurn act (as ++ bs) s =
    ((inTurn act as s).1 ++ (inTurn act bs (inTurn act as s).2).1,
      (inTurn act bs (inTurn act as s).2).2) := by
  induction as generalizing s with
  | nil => rfl
  | cons a as ih => simp only [List.cons_append, inTurn, ih]

theorem inTurn_singleton : inTurn act [a] s = ([(act a s).1], (act a s).2) := rfl

theorem passes_nil : Passes kind act [] s ks t ↔ ks = [] ∧ s = t := by
  rw [Passes, inTurn, Prod.mk.injEq, eq_comm (a := []), List.map_eq_nil_iff]

/-- A row passes when its first lets it go on, and the others pass behind it. -/
theorem passes_cons_of_next (hkind : kind.Injective) (ha : act a s = (some (kind k), s')) :
    Passes kind act (a :: as) s ks t ↔ ∃ ks', ks = k :: ks' ∧ Passes kind act as s' ks' t := by
  simp only [Passes, inTurn, ha]
  cases ks with
  | nil => simp
  | cons k' ks' =>
    simp only [List.map_cons, Prod.mk.injEq, List.cons.injEq, Option.some.injEq, hkind.eq_iff]
    constructor
    · rintro ⟨⟨rfl, hks⟩, rfl⟩
      exact ⟨ks', ⟨rfl, rfl⟩, Prod.ext hks rfl⟩
    · rintro ⟨ks'', ⟨rfl, rfl⟩, hpass⟩
      exact ⟨⟨rfl, congrArg Prod.fst hpass⟩, congrArg Prod.snd hpass⟩

theorem not_passes_cons (ha : act a s = (r', s')) (hr' : ∀ k, r' ≠ some (kind k)) :
    ¬ Passes kind act (a :: as) s ks t := by
  simp only [Passes, inTurn, ha]
  cases ks with
  | nil => simp
  | cons k ks => simp [hr' k]

theorem not_stopsAt_nil : ¬ StopsAt kind act [] s r t := by
  rintro ⟨before, a, behind, ks, has, -⟩
  simp at has

/-- A row stops at its first when that does not let it go on. -/
theorem stopsAt_cons (ha : act a s = (r', s')) (hr' : ∀ k, r' ≠ some (kind k)) :
    StopsAt kind act (a :: as) s r t ↔ (r', s') = (r, t) := by
  constructor
  · rintro ⟨before, b, behind, ks, has, hturn⟩
    cases before with
    | nil =>
      obtain ⟨rfl, -⟩ := List.cons.inj has
      rw [List.nil_append, inTurn_singleton, ha] at hturn
      cases ks with
      | nil => simpa using hturn
      | cons k ks => simp at hturn
    | cons c before =>
      -- the first is one of those before, so its result is of the kind
      obtain ⟨rfl, -⟩ := List.cons.inj has
      simp only [List.cons_append, inTurn, ha] at hturn
      cases ks with
      | nil => cases before <;> simp [inTurn] at hturn
      | cons k ks => exact absurd (List.cons.inj (congrArg Prod.fst hturn)).1 (hr' k)
  · rintro ⟨⟩
    exact ⟨[], a, as, [], rfl, by rw [List.nil_append, inTurn_singleton, ha]; rfl⟩

/-- A row that goes on stops where the others do. -/
theorem stopsAt_cons_of_next (ha : act a s = (some (kind k), s')) (hr : ∀ k, r ≠ some (kind k)) :
    StopsAt kind act (a :: as) s r t ↔ StopsAt kind act as s' r t := by
  constructor
  · rintro ⟨before, b, behind, ks, has, hturn⟩
    cases before with
    | nil =>
      -- then the first has the result of the whole row, which is of another kind
      obtain ⟨rfl, -⟩ := List.cons.inj has
      rw [List.nil_append, inTurn_singleton, ha] at hturn
      cases ks with
      | nil => exact absurd (List.cons.inj (congrArg Prod.fst hturn)).1.symm (hr k)
      | cons k ks => simp at hturn
    | cons c before =>
      obtain ⟨rfl, -⟩ := List.cons.inj has
      simp only [List.cons_append, inTurn, ha] at hturn
      cases ks with
      | nil => cases before <;> simp [inTurn] at hturn
      | cons k ks =>
        obtain ⟨hrs, ht⟩ := Prod.mk.inj hturn
        exact ⟨before, b, behind, ks, (List.cons.inj has).2, Prod.ext (List.cons.inj hrs).2 ht⟩
  · rintro ⟨before, b, behind, ks, rfl, hturn⟩
    refine ⟨a :: before, b, behind, k :: ks, rfl, ?_⟩
    simp only [List.cons_append, inTurn, ha, hturn, List.map_cons]

/-! ## The two loops -/

variable {take : β → σ → Option FixResult × σ} {fs : List (Fixer β)} {messages : List String}
  {last e : CheckError} {m : String}

theorem ok_injective : (Except.ok : String → FixResult).Injective := fun _ _ => Except.ok.inj

theorem error_injective : (Except.error : CheckError → FixResult).Injective :=
  fun _ _ => Except.error.inj

/-- **All of them succeed**, and their messages are joined. -/
theorem runAll_eq_ok : runAll take messages fs s = (some (.ok m), t) ↔
    ∃ ms, Passes .ok (run take) fs s ms t ∧ m = "; ".intercalate (messages ++ ms) := by
  induction fs generalizing messages s with
  | nil => simp [runAll, passes_nil, eq_comm, and_comm]
  | cons f fs ih =>
    rw [runAll]
    rcases hf : run take f s with ⟨_ | e | m', s'⟩
    · simp [not_passes_cons hf]
    · simp [not_passes_cons hf]
    · simp only [passes_cons_of_next ok_injective hf, ih]
      constructor
      · rintro ⟨ms, hpass, rfl⟩
        exact ⟨m' :: ms, ⟨ms, rfl, hpass⟩, by simp⟩
      · rintro ⟨_, ⟨ms, rfl, hpass⟩, rfl⟩
        exact ⟨ms, hpass, by simp⟩

/-- **Otherwise the first that does not succeed** decides. -/
theorem runAll_eq_of_ne (hr : ∀ m, r ≠ some (.ok m)) : runAll take messages fs s = (r, t) ↔
    StopsAt .ok (run take) fs s r t := by
  induction fs generalizing messages s with
  | nil => simp [runAll, not_stopsAt_nil, (hr _).symm]
  | cons f fs ih =>
    rw [runAll]
    rcases hf : run take f s with ⟨_ | e | m', s'⟩
    · exact (stopsAt_cons hf (by simp)).symm
    · exact (stopsAt_cons hf (by simp)).symm
    · exact ih.trans (stopsAt_cons_of_next hf hr).symm

/-- **All of them fail**, and the last error stands. -/
theorem runAny_eq_error : runAny take last fs s = (some (.error e), t) ↔
    ∃ es, Passes .error (run take) fs s es t ∧ e = es.getLastD last := by
  induction fs generalizing last s with
  | nil => simp [runAny, passes_nil, eq_comm, and_comm]
  | cons f fs ih =>
    rw [runAny]
    rcases hf : run take f s with ⟨_ | e' | m, s'⟩
    · simp [not_passes_cons hf]
    · simp only [passes_cons_of_next error_injective hf, ih]
      constructor
      · rintro ⟨es, hpass, rfl⟩
        exact ⟨e' :: es, ⟨es, rfl, hpass⟩, by rw [List.getLastD_cons]⟩
      · rintro ⟨_, ⟨es, rfl, hpass⟩, rfl⟩
        exact ⟨es, hpass, by rw [List.getLastD_cons]⟩
    · simp [not_passes_cons hf]

/-- **Otherwise the first that does not fail** decides. -/
theorem runAny_eq_of_ne (hr : ∀ e, r ≠ some (.error e)) : runAny take last fs s = (r, t) ↔
    StopsAt .error (run take) fs s r t := by
  induction fs generalizing last s with
  | nil => simp [runAny, not_stopsAt_nil, (hr _).symm]
  | cons f fs ih =>
    rw [runAny]
    rcases hf : run take f s with ⟨_ | e' | m, s'⟩
    · exact (stopsAt_cons hf (by simp)).symm
    · exact ih.trans (stopsAt_cons_of_next hf hr).symm
    · exact (stopsAt_cons hf (by simp)).symm

/-! ## The calls inside -/

mutual

/-- The steps in a fixer, from left to right. -/
def steps : Fixer β → List β
  | .step b => [b]
  | .all fs => rowSteps fs
  | .any fs => rowSteps fs

/-- The steps in a row of fixers. -/
def rowSteps : List (Fixer β) → List β
  | [] => []
  | f :: fs => steps f ++ rowSteps fs

end

/-- A step that is noted when it is taken. -/
def noted (take : β → σ → Option FixResult × σ) (b : β) (s : σ × List β) :
    Option FixResult × (σ × List β) :=
  ((take b s.1).1, ((take b s.1).2, s.2 ++ [b]))

/-- What the calls of an invocation from `s` to `out` are: steps of the fixer in their order,
made one after another. There is a result unless one of them does not come to an end. -/
structure Calls (take : β → σ → Option FixResult × σ) (steps : List β) (s : σ)
    (out : Option FixResult × σ) (calls : List β) : Prop where
  sublist : calls.Sublist steps
  state : (inTurn take calls s).2 = out.2
  ends : out.1 = none ↔ none ∈ (inTurn take calls s).1

namespace Calls

variable {xs ys calls calls' : List β} {out : Option FixResult × σ}

/-- An invocation that calls nothing. -/
theorem nothing {r : FixResult} : Calls take [] s (some r, s) [] where
  sublist := .slnil
  state := rfl
  ends := by simp [inTurn]

/-- What stands behind is not called. -/
theorem stop (h : Calls take xs s out calls) : Calls take (xs ++ ys) s out calls where
  sublist := h.sublist.trans (List.sublist_append_left xs ys)
  state := h.state
  ends := h.ends

/-- What stands behind is called when the first is done. -/
theorem next {r : FixResult} (h : Calls take xs s (some r, s') calls)
    (h' : Calls take ys s' out calls') : Calls take (xs ++ ys) s out (calls ++ calls') where
  sublist := h.sublist.append h'.sublist
  state := by
    rw [inTurn_append, h.state]
    exact h'.state
  ends := by
    have hfirst : none ∉ (inTurn take calls s).1 := fun hmem => by simpa using h.ends.2 hmem
    rw [inTurn_append, h.state, List.mem_append, or_iff_right hfirst]
    exact h'.ends

end Calls

mutual

/-- **Every invocation makes its calls** from left to right. -/
theorem run_calls (take : β → σ → Option FixResult × σ) (f : Fixer β) (s : σ) :
    ∃ calls, Calls take f.steps s (run take f s) calls ∧ ∀ log,
      run (noted take) f (s, log) = ((run take f s).1, ((run take f s).2, log ++ calls)) := by
  match f with
  | .step b =>
    refine ⟨[b], ⟨.refl _, rfl, ?_⟩, fun log => rfl⟩
    simp [inTurn, run, eq_comm]
  | .all fs =>
    simp only [run, steps]
    exact runAll_calls take [] fs s
  | .any fs =>
    simp only [run, steps]
    exact runAny_calls take noFixers fs s

theorem runAll_calls (take : β → σ → Option FixResult × σ) (messages : List String)
    (fs : List (Fixer β)) (s : σ) :
    ∃ calls, Calls take (rowSteps fs) s (runAll take messages fs s) calls ∧ ∀ log,
      runAll (noted take) messages fs (s, log) =
        ((runAll take messages fs s).1, ((runAll take messages fs s).2, log ++ calls)) := by
  match fs with
  | [] => exact ⟨[], .nothing, fun log => by simp [runAll]⟩
  | f :: fs =>
    obtain ⟨calls, h, hlog⟩ := run_calls take f s
    simp only [runAll, rowSteps, hlog]
    rcases hf : run take f s with ⟨_ | e | m, s'⟩
    all_goals rw [hf] at h
    · exact ⟨calls, h.stop, fun _ => rfl⟩
    · exact ⟨calls, h.stop, fun _ => rfl⟩
    · obtain ⟨calls', h', hlog'⟩ := runAll_calls take (messages ++ [m]) fs s'
      exact ⟨calls ++ calls', h.next h', fun log => by simp only [hlog', List.append_assoc]⟩

theorem runAny_calls (take : β → σ → Option FixResult × σ) (last : CheckError)
    (fs : List (Fixer β)) (s : σ) :
    ∃ calls, Calls take (rowSteps fs) s (runAny take last fs s) calls ∧ ∀ log,
      runAny (noted take) last fs (s, log) =
        ((runAny take last fs s).1, ((runAny take last fs s).2, log ++ calls)) := by
  match fs with
  | [] => exact ⟨[], .nothing, fun log => by simp [runAny]⟩
  | f :: fs =>
    obtain ⟨calls, h, hlog⟩ := run_calls take f s
    simp only [runAny, rowSteps, hlog]
    rcases hf : run take f s with ⟨_ | e | m, s'⟩
    all_goals rw [hf] at h
    · exact ⟨calls, h.stop, fun _ => rfl⟩
    · obtain ⟨calls', h', hlog'⟩ := runAny_calls take e fs s'
      exact ⟨calls ++ calls', h.next h', fun log => by simp only [hlog', List.append_assoc]⟩
    · exact ⟨calls, h.stop, fun _ => rfl⟩

end

/-- **A fixer short-circuits at every depth.** An invocation calls the steps inside from left to
right, each at most once. Of a row for all of which it asks, it takes those up to the first
that does not succeed, and succeeds with their messages when there is none; of a row for any
of which it asks, those up to the first that does not fail, and fails with the last error when
there is none. -/
theorem run_shortCircuits (take : β → σ → Option FixResult × σ) (s : σ) :
    (∀ f : Fixer β, ∃ calls, Calls take f.steps s (run take f s) calls ∧
      run (noted take) f (s, []) = ((run take f s).1, ((run take f s).2, calls))) ∧
    (∀ fs t,
      (∀ m, run take (.all fs) s = (some (.ok m), t) ↔
        ∃ ms, Passes .ok (run take) fs s ms t ∧ m = "; ".intercalate ms) ∧
      (∀ e, run take (.all fs) s = (some (.error e), t) ↔
        StopsAt .ok (run take) fs s (some (.error e)) t) ∧
      (run take (.all fs) s = (none, t) ↔ StopsAt .ok (run take) fs s none t)) ∧
    (∀ fs t,
      (∀ e, run take (.any fs) s = (some (.error e), t) ↔
        ∃ es, Passes .error (run take) fs s es t ∧ e = es.getLastD noFixers) ∧
      (∀ m, run take (.any fs) s = (some (.ok m), t) ↔
        StopsAt .error (run take) fs s (some (.ok m)) t) ∧
      (run take (.any fs) s = (none, t) ↔ StopsAt .error (run take) fs s none t)) := by
  refine ⟨fun f => ?_, fun fs t => ?_, fun fs t => ?_⟩
  · obtain ⟨calls, h, hlog⟩ := run_calls take f s
    exact ⟨calls, h, hlog []⟩
  · simp only [run]
    exact ⟨fun _ => runAll_eq_ok, fun _ => runAll_eq_of_ne (by simp), runAll_eq_of_ne (by simp)⟩
  · simp only [run]
    exact ⟨fun _ => runAny_eq_error, fun _ => runAny_eq_of_ne (by simp), runAny_eq_of_ne (by simp)⟩

example : run (noted fun good calls =>
      (some (if good then .ok "done" else .error noFixers), calls + 1))
    (.all [.step true, .any [.step false, .step true, .step true], .step false, .step true])
    (0, []) = (some (.error noFixers), (4, [true, false, true, false])) := rfl

end Fixer

end Conductor
