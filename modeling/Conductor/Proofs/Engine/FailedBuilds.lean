import Conductor.Proofs.Engine.Entries
/-!
# Engine — what a failed build leaves in the cache

A build stage that fails cancels the builds that still go on, but waits for them, and
what they give is kept. So the cache is sound whatever becomes of a stage: each of its
entries is the result of a build that returned an artifact, nothing is taken out, and a
call whose builds are over has entered what its builds returned, each result once. A
later call with the same request builds only what was not returned
(`Session.Enters.cache_sound`).
-/

namespace Conductor

open Call (BuildsOver StageStep Story)
open BuildStage (asked)

namespace Call

variable {e : Engine} {l l' : Ledger} {c c' : Call} {j : CallInput} {fx more : List Effect}
  {units : List BuildUnit} {fp : String}

/-- What holds of the build stage of a call, while there is one, and of all that the builder
was asked. -/
structure Traced (P : BuildStage → Prop) (R : Nat → BuildInput → Prop) (phase : CallPhase)
    (fx : List Effect) : Prop where
  stage : ∀ o s, phase = .building o s → P s
  asks : ∀ b i input, .build b i input ∈ fx → R i input

/-- The units of a call are those planned, and the builder is asked for these only. -/
abbrev OfPlan (units : List BuildUnit) : CallPhase → List Effect → Prop :=
  Traced (fun s => s.units = units)
    fun i input => ∃ u, units[i]? = some u ∧ input.fingerprint = u.fingerprint

/-- What has a fingerprint is not missed, and the builder is not asked for it. -/
abbrev Spares (fp : String) : CallPhase → List Effect → Prop :=
  Traced (fun s => ∀ slot ∈ s.slots, slot.progress.isMissing = true → slot.unit.fingerprint ≠ fp)
    fun _ input => input.fingerprint ≠ fp

/-- **The step lemma**: what is kept when a unit moves on, and when one is missed, and is
known of what is asked for a unit that was, stays. -/
theorem Traced.step {P : BuildStage → Prop} {R : Nat → BuildInput → Prop}
    (h : Traced P R c.phase fx) (step : StageStep l c j l' c' more)
    (moves : ∀ (s s' : BuildStage) i p, P s → s'.slots = (s.put i p).slots →
      p.isMissing = false → P s')
    (misses : ∀ (s : BuildStage) i u, P s → s.slots[i]? = some ⟨u, .planned⟩ →
      l.cache.get? u.fingerprint = none → P (s.put i .missing))
    (asks : ∀ (s : BuildStage) i u n, P s → s.slots[i]? = some ⟨u, .missing⟩ →
      R i (s.inputOf u n)) : Traced P R c'.phase (fx ++ more) := by
  have quiet : NoBuild more → ∀ b i input, .build b i input ∈ fx ++ more → R i input := by
    intro hnone b i input hmem
    rcases List.mem_append.1 hmem with hmem | hmem
    · exact h.asks b i input hmem
    · cases hnone _ hmem
  have enters : ∀ {o s}, P s → ∀ o' s', CallPhase.building o s = .building o' s' → P s' := by
    intro o s hs o' s' heq
    cases heq
    exact hs
  cases step with
  | @proceed o s s' l' more hphase hs =>
    have hstage := h.stage o s hphase
    rcases BuildStage.proceed_cases hs with ⟨i, u, hit, -, -, rfl, -, rfl⟩ |
      ⟨i, u, hslot, hget, rfl, -, rfl⟩ | ⟨i, u, hslot, rfl, -, rfl⟩
    · exact ⟨enters (moves _ _ i _ hstage rfl rfl), quiet (noBuild_events [_])⟩
    · exact ⟨enters (misses _ i u hstage hslot hget), quiet (noBuild_events [])⟩
    · refine ⟨enters (moves _ _ i _ hstage rfl rfl), fun b k input hmem => ?_⟩
      rcases List.mem_append.1 hmem with hmem | hmem
      · exact h.asks b k input hmem
      · simp only [List.mem_cons, reduceCtorEq, Effect.build.injEq, List.not_mem_nil, or_false,
          false_or] at hmem
        obtain ⟨rfl, rfl, rfl⟩ := hmem
        exact asks s k u _ hstage hslot
  | @finish o s s' unit how more hphase hs =>
    obtain ⟨u, n, told, -, rfl, rfl⟩ := BuildStage.finish_cases hs
    exact ⟨enters (moves _ _ unit _ (h.stage o s hphase) rfl rfl), quiet (noBuild_events told)⟩
  | @join o s s' unit l' hphase hs =>
    obtain ⟨-, u, n, how, -, ⟨out, -, rfl, -⟩ | ⟨failure, -, -, rfl⟩⟩ := BuildStage.join_cases hs
    · exact ⟨enters (moves _ _ unit _ (h.stage o s hphase) rfl rfl), quiet (noBuild_events [])⟩
    · exact ⟨enters (moves _ _ unit (.joined none) (h.stage o s hphase) rfl rfl),
        quiet (noBuild_events [])⟩
  | stays _ hphase hsaid =>
    exact ⟨fun o s hp => h.stage o s (hphase ▸ hp), quiet hsaid.noBuild⟩
  | passes _ _ hover _ hsaid =>
    refine ⟨fun o s hp => ?_, quiet hsaid.noBuild⟩
    rw [BuildsOver, hp] at hover
    cases hover

/-- What is known of a stage in which nothing has happened holds of a call that begins. -/
theorem traced_start {P : BuildStage → Prop} {R : Nat → BuildInput → Prop} (e : Engine)
    (runId : String) (canceled : Bool) (r : Request)
    (hnew : ∀ s : BuildStage, s.units = r.units e → (∀ slot ∈ s.slots, slot.progress = .planned) →
      P s) : Traced P R (start e runId canceled r).1.phase (start e runId canceled r).2 := by
  rcases start_cases e runId canceled r with ⟨o, s, hphase, hfx, hunits, hplanned⟩ | ⟨hover, hsaid⟩
  · rw [hphase, hfx]
    refine ⟨fun o' s' heq => ?_, fun b i input hmem => by cases hmem⟩
    cases heq
    exact hnew s hunits hplanned
  · refine ⟨fun o s hphase => ?_, fun b i input hmem => by cases hsaid.noBuild _ hmem⟩
    rw [BuildsOver, hphase] at hover
    cases hover

/-- The units of a call stay those that are planned. -/
theorem OfPlan.step (h : OfPlan units c.phase fx) (step : StageStep l c j l' c' more) :
    OfPlan units c'.phase (fx ++ more) := by
  have moved : ∀ {s s' : BuildStage} {i p}, s.units = units → s'.slots = (s.put i p).slots →
      s'.units = units := by
    intro s s' i p hs hslots
    rw [BuildStage.units, hslots]
    exact BuildStage.units_put.trans hs
  refine Traced.step h step (fun s s' i p hs hslots _ => moved hs hslots)
    (fun s i u hs _ _ => moved hs rfl) fun s i u n hs hslot => ⟨u, ?_, rfl⟩
  rw [← hs, BuildStage.units, List.getElem?_map, hslot]
  rfl

/-- **What is in the cache is spared** by every step. -/
theorem Spares.step (h : Spares fp c.phase fx) (step : StageStep l c j l' c' more)
    (hfp : l.cache.get? fp ≠ none) : Spares fp c'.phase (fx ++ more) := by
  refine Traced.step h step (fun s s' i p hs hslots hp => ?_) (fun s i u hs hslot hget => ?_)
    fun s i u n hs hslot => hs _ (List.mem_of_getElem? hslot) rfl
  · rw [hslots]
    exact BuildStage.forall_put hs fun slot _ hmissing => by rw [hp] at hmissing; cases hmissing
  · refine BuildStage.forall_put_of hslot hs fun _ heq => hfp ?_
    rw [← heq, hget]

end Call

namespace Session

variable {e : Engine} {s t : Session} {i : Input} {is is' : List Input} {deeds deeds' : List Deed}
  {es : List Entry} {k k' unit : Nat} {c c' : Call} {fp : String} {r : Request}

/-- **The units of a call are those planned for its request.** -/
theorem Follows.ofPlan (h : Follows e is s deeds) (hr : (requests is)[k]? = some r)
    (hc : s.calls[k]? = some c) : Call.OfPlan (r.units e) c.phase (deedsOf k deeds) := by
  refine h.along (Q := fun _ c fx => Call.OfPlan (r.units e) c.phase fx) hc hr
    (fun _ runId canceled => Call.traced_start e runId canceled r fun s hunits _ => hunits) ?_
  intro is s deeds i c c' fx _ _ ih hturn
  cases hturn with
  | own hstep _ => exact ih.step (StageStep.of_step hstep)
  | attended => exact ⟨ih.stage, fun b i input hmem => ih.asks b i input (by simpa using hmem)⟩
  | idle => simpa using ih

/-- **What is in the cache stays there, and is spared by every call that begins later.** -/
theorem Follows.spares (h : Follows e is s deeds) (hfp : s.ledger.cache.get? fp ≠ none)
    (h' : Follows e (is ++ is') t deeds') :
    t.ledger.cache.get? fp ≠ none ∧ ∀ k c, s.calls.length ≤ k → t.calls[k]? = some c →
      Call.Spares fp c.phase (deedsOf k deeds') := by
  induction is' using List.reverseRecOn generalizing t deeds' with
  | nil =>
    rw [List.append_nil] at h'
    obtain ⟨rfl, rfl⟩ := h.unique h'
    refine ⟨hfp, fun k c hk hc => ?_⟩
    have hlt := (List.getElem?_eq_some_iff.1 hc).1
    omega
  | append_singleton is' i ih =>
    rw [← List.append_assoc] at h'
    obtain ⟨t₀, before, more, follows, step, rfl⟩ := h'.of_append
    obtain ⟨hkept, hspares⟩ := ih follows
    refine ⟨get?_ne_none_of_step step hkept, fun k c hk hc => ?_⟩
    rw [deedsOf_append]
    have hsees := Sees.of_step step hc
    generalize deedsOf k more = fx at hsees
    cases hsees with
    | begins runId canceled r hlength =>
      rw [follows.deedsOf_eq_nil (Nat.le_of_eq hlength.symm), List.nil_append]
      refine Call.traced_start e runId canceled r fun s _ hnew slot hslot hmissing => ?_
      rw [hnew slot hslot] at hmissing
      cases hmissing
    | own hc₀ hstep => exact (hspares k _ hk hc₀).step (StageStep.of_step hstep) hkept
    | told hc₀ hstep => exact (hspares k _ hk hc₀).step (StageStep.of_step hstep) hkept
    | attended hc₀ =>
      have hold := hspares k c hk hc₀
      exact ⟨hold.stage, fun b i input hmem => hold.asks b i input (by simpa using hmem)⟩
    | idle hc₀ => simpa using hspares k c hk hc₀

/-! ## The cache -/

/-- A builder was asked for a unit of a call, and the build has returned an artifact. -/
structure Made (is : List Input) (deeds : List Deed) (k unit : Nat) (b : Selector)
    (input : BuildInput) (out : BuildOutput) : Prop where
  asked : ⟨k, .build b unit input⟩ ∈ deeds
  returned : .call k (.finish unit (.returned (.ok out))) ∈ is

/-- A unit of a call whose builds are over: its build returned an artifact, and the result
was entered, once, or it has no such build, and nothing was entered. -/
def AccountedFor (is : List Input) (deeds : List Deed) (es : List Entry) (k unit : Nat) : Prop :=
  (∃ b input out, asked unit (deedsOf k deeds) = [(b, input)] ∧
      endsOf k unit is = [.returned (.ok out)] ∧ entriesOf k unit es = [input.resultOf b out]) ∨
    (∀ out, .returned (.ok out) ∉ endsOf k unit is) ∧ entriesOf k unit es = []

/-- An end of a build is an input. -/
theorem mem_endsOf {how : BuildEnd} :
    how ∈ endsOf k unit is ↔ .call k (.finish unit how) ∈ is := by
  constructor
  · intro h
    obtain ⟨i, hi, hends⟩ := List.mem_filterMap.1 h
    cases i with
    | call n j =>
      simp only [Input.ends] at hends
      split at hends
      · rename_i hn
        cases j with
        | finish m how' =>
          simp only [CallInput.ends] at hends
          split at hends
          · rename_i hm
            cases hends
            exact hn ▸ hm ▸ hi
          · cases hends
        | _ => cases hends
      · cases hends
    | _ => cases hends
  · intro h
    exact List.mem_filterMap.2 ⟨_, h, by simp [Input.ends, CallInput.ends]⟩

/-- What was entered for a unit of a call was entered by it. -/
theorem mem_entriesOf {x : Entry} (h : x ∈ es) : x.result ∈ entriesOf x.call x.unit es :=
  List.mem_map_of_mem (List.mem_filter.2 ⟨h, by simp⟩)

/-- An entry is the result of a build that returned an artifact. -/
theorem Enters.made (h : Enters e is s deeds es) {x : Entry} (hx : x ∈ es) :
    ∃ b input out, Made is deeds x.call x.unit b input out ∧ x.result = input.resultOf b out := by
  have hmem : x.result ∈ (storyOf x.call is deeds es x.unit).entries := mem_entriesOf hx
  cases hc : s.calls[x.call]? with
  | none =>
    rw [h.unborn (List.getElem?_eq_none_iff.1 hc)] at hmem
    cases hmem
  | some c =>
    obtain ⟨b, input, out, hstory, hresult⟩ := (h.recounted hc).told_of_mem hmem
    obtain ⟨hasks, hends, -⟩ := Story.mk.inj hstory
    exact ⟨b, input, out, ⟨mem_deedsOf.1 (BuildStage.mem_asked.1 (by simp [hasks])),
      mem_endsOf.1 (by simp [hends])⟩, hresult⟩

/-- A unit of a call whose builds are over is accounted for. -/
theorem Enters.accounted (h : Enters e is s deeds es) (hc : s.calls[k]? = some c)
    (hover : c.BuildsOver) (unit : Nat) : AccountedFor is deeds es k unit := by
  rcases (h.recounted hc).of_over hover unit with hstory | ⟨b, input, how, hstory⟩
  · obtain ⟨-, hends, hentries⟩ := Story.mk.inj hstory
    exact .inr ⟨by simp [hends], hentries⟩
  · obtain ⟨hasks, hends, hentries⟩ := Story.mk.inj hstory
    cases how with
    | returned result =>
      cases result with
      | ok out => exact .inl ⟨b, input, out, hasks, hends, hentries⟩
      | error error => exact .inr ⟨by simp [hends], hentries⟩
    | broke message => exact .inr ⟨by simp [hends], hentries⟩

/-- What a later call asks a builder for was not in the cache. -/
theorem Follows.get?_eq_none_of_later (h : Follows e is s deeds)
    (h' : Follows e (is ++ is') t deeds') (hk : s.calls.length ≤ k') {b : Selector}
    {input : BuildInput} (hask : ⟨k', .build b unit input⟩ ∈ deeds') :
    s.ledger.cache.get? input.fingerprint = none := by
  by_contra hfp
  obtain ⟨c, hc⟩ : ∃ c, t.calls[k']? = some c :=
    ⟨_, List.getElem?_eq_getElem (h'.lt_of_mem hask)⟩
  exact ((h.spares hfp h').2 k' c hk hc).asks b unit input (mem_deedsOf.2 hask) rfl

/-- What a call has built is in the cache, once its builds are over. -/
theorem Enters.kept (h : Enters e is s deeds es) (hc : s.calls[k]? = some c)
    (hover : c.BuildsOver) {out : BuildOutput}
    (hout : .call k (.finish unit (.returned (.ok out))) ∈ is) :
    ∃ b input, ⟨k, .build b unit input⟩ ∈ deeds ∧
      s.ledger.cache.get? input.fingerprint ≠ none := by
  rcases h.accounted hc hover unit with ⟨b, input, out', hasks, -, hentries⟩ | ⟨hnone, -⟩
  · refine ⟨b, input, mem_deedsOf.1 (BuildStage.mem_asked.1 (by simp [hasks])), ?_⟩
    have hmem : input.resultOf b out' ∈ entriesOf k unit es := by simp [hentries]
    obtain ⟨x, hx, hresult⟩ := List.mem_map.1 hmem
    have hin := recorded_of_mem (List.mem_filter.1 hx).1
    rw [hresult, ← h.cache_eq] at hin
    exact hin
  · exact absurd (mem_endsOf.2 hout) (hnone out)

/-- A later call with the same request does not ask for what has been built. -/
theorem Enters.not_rebuilt (h : Enters e is s deeds es) (h' : Follows e (is ++ is') t deeds')
    (hc : s.calls[k]? = some c) (hover : c.BuildsOver) (hk : s.calls.length ≤ k')
    (hsame : (requests (is ++ is'))[k']? = (requests is)[k]?) {b : Selector} {input : BuildInput}
    (hask : ⟨k', .build b unit input⟩ ∈ deeds') (out : BuildOutput) :
    .call k (.finish unit (.returned (.ok out))) ∉ is := by
  intro hout
  obtain ⟨b₀, input₀, hask₀, hin⟩ := h.kept hc hover hout
  obtain ⟨r, hr⟩ : ∃ r, (requests is)[k]? = some r :=
    ⟨_, List.getElem?_eq_getElem (h.follows.length_calls ▸ (List.getElem?_eq_some_iff.1 hc).1)⟩
  obtain ⟨c', hc'⟩ : ∃ c, t.calls[k']? = some c :=
    ⟨_, List.getElem?_eq_getElem (h'.lt_of_mem hask)⟩
  obtain ⟨u₀, hu₀, hfp₀⟩ := (h.follows.ofPlan hr hc).asks b₀ unit input₀ (mem_deedsOf.2 hask₀)
  obtain ⟨u, hu, hfp⟩ := (h'.ofPlan (hsame.trans hr) hc').asks b unit input (mem_deedsOf.2 hask)
  rw [hu₀, Option.some.injEq] at hu
  have hmiss := h.follows.get?_eq_none_of_later h' hk hask
  rw [hfp, ← hu, ← hfp₀] at hmiss
  exact hin hmiss

/-- **The cache is sound, whatever becomes of the builds.** In every session it is what was
entered; each of its results is that of a build that returned an artifact for an input with
the fingerprint it is kept under; a call whose builds are over has entered the results of
the units whose build returned an artifact, each once, and nothing for the others; nothing
is taken out later, and a call that begins later asks a builder for nothing that is there,
so that with the request of an earlier one it builds none of what that one has built. -/
theorem Enters.cache_sound (h : Enters e is s deeds es) :
    s.ledger.cache = recorded es ∧
      (∀ fp r, s.ledger.cache.get? fp = some r → r.fingerprint = fp ∧
        ∃ k unit b input out, Made is deeds k unit b input out ∧ input.fingerprint = fp ∧
          r = input.resultOf b out) ∧
      (∀ k c, s.calls[k]? = some c → c.BuildsOver →
        ∀ unit, AccountedFor is deeds es k unit) ∧
      ∀ is' t deeds', Follows e (is ++ is') t deeds' →
        (∀ fp, s.ledger.cache.get? fp ≠ none → t.ledger.cache.get? fp ≠ none) ∧
          ∀ k' b unit input, s.calls.length ≤ k' → ⟨k', .build b unit input⟩ ∈ deeds' →
            s.ledger.cache.get? input.fingerprint = none ∧
              ∀ k c, s.calls[k]? = some c → c.BuildsOver →
                (requests (is ++ is'))[k']? = (requests is)[k]? →
                  ∀ out, .call k (.finish unit (.returned (.ok out))) ∉ is := by
  refine ⟨h.cache_eq, fun fp r hr => ?_, fun k c hc hover unit => h.accounted hc hover unit,
    fun is' t deeds' h' => ⟨fun fp hfp => (h.follows.spares hfp h').1,
      fun k' b unit input hk hask => ⟨h.follows.get?_eq_none_of_later h' hk hask,
        fun k c hc hover hsame out => h.not_rebuilt h' hc hover hk hsame hask out⟩⟩⟩
  rw [h.cache_eq] at hr
  obtain ⟨x, hx, rfl, hfp⟩ := exists_of_recorded hr
  obtain ⟨b, input, out, hmade, hresult⟩ := h.made hx
  exact ⟨hfp, x.call, x.unit, b, input, out, hmade, by rw [← hfp, hresult]; rfl, hresult⟩

/-! ## A build beside a failure

Two groups are to be built. The build of the second fails, and that of the first returns
its artifact afterwards. -/

namespace HalfBuilt

open Call.Refusal (builder engine output)

def group (id : String) (build : BuildOptions) : Group :=
  ⟨id, ⟨1, .zero⟩, build, [], [], ⟨none, []⟩⟩

def composition : Composition where
  metadata := ⟨"", ""⟩
  settings := ⟨"plan", "", 0, "exec:bin", "", [], none, [], none⟩
  groups := [group "p" .none, group "q" ⟨[], [⟨"m", "1"⟩]⟩]

def begun : Input := .start "run" false (.build composition ⟨none, none, false⟩)

def inputs : List Input :=
  [begun, .call 0 .proceed, .call 0 .proceed, .call 0 .proceed, .call 0 .proceed,
    .call 0 (.finish 1 (.returned (.error (.failed ["no"])))), .call 0 (.join 1),
    .call 0 (.finish 0 (.returned (.ok output))), .call 0 (.join 0), .call 0 .proceed]

/-- The stage with its units in some progress. -/
def stage (u u' : BuildUnit) (p p' : UnitProgress) (failure : Option BuildFailure) : BuildStage :=
  ⟨builder.id, "plan", "/home/plans/plan", [⟨u, p⟩, ⟨u', p'⟩], failure.isSome, failure⟩

/-- The session with its call in a phase. -/
def session (l : Ledger) (phase : CallPhase) : Session :=
  ⟨l, [], [Call.opened "run" false false phase]⟩

theorem begins : ∃ u u', Call.beginBuild engine false composition ⟨none, none, false⟩ =
    .ok (.building none (stage u u' .planned .planned none)) :=
  ⟨_, _, rfl⟩

/-- The session in which both builds are under way. -/
theorem launched : ∃ u u' deeds, Follows engine
    [begun, .call 0 .proceed, .call 0 .proceed, .call 0 .proceed, .call 0 .proceed]
    (session Ledger.empty.countStart.countStart
      (.building none (stage u u' (.building 0) (.building 1) none))) deeds := by
  obtain ⟨u, u', hbegin⟩ := begins
  have hstart : (ofEngine engine).step engine begun =
      some (session .empty (.building none (stage u u' .planned .planned none)), []) := by
    simp only [begun, step, start, Call.start, hbegin]
    rfl
  have h₀ : Follows engine [begun]
      (session .empty (.building none (stage u u' .planned .planned none))) [] :=
    .next .start hstart
  have h₁ : Follows engine _
      (session .empty (.building none (stage u u' .missing .planned none))) _ :=
    h₀.next (i := .call 0 .proceed) rfl
  have h₂ : Follows engine _
      (session .empty (.building none (stage u u' .missing .missing none))) _ :=
    h₁.next (i := .call 0 .proceed) rfl
  have h₃ : Follows engine _ (session Ledger.empty.countStart
      (.building none (stage u u' (.building 0) .missing none))) _ :=
    h₂.next (i := .call 0 .proceed) rfl
  exact ⟨u, u', _, h₃.next (i := .call 0 .proceed) rfl⟩

theorem follows : ∃ s deeds groups, Follows engine inputs s deeds ∧
    s.calls = [Call.opened "run" false false
      (.finished (.error (.build groups (.failed ["no"]))))] := by
  obtain ⟨u, u', deeds, h₄⟩ := launched
  have h₅ := h₄.next (i := .call 0 (.finish 1 (.returned (.error (.failed ["no"]))))) rfl
  have h₆ := h₅.next (i := .call 0 (.join 1)) rfl
  have h₇ := h₆.next (i := .call 0 (.finish 0 (.returned (.ok output)))) rfl
  have h₈ := h₇.next (i := .call 0 (.join 0)) rfl
  exact ⟨_, _, u'.groupIds, h₈.next (i := .call 0 .proceed) rfl, rfl⟩

end HalfBuilt

/-- The call fails, and has entered what the first build returned, and nothing else. -/
theorem cache_sound_of_halfBuilt : ∃ (s : Session) (deeds : List Deed) (es : List Entry)
    (groups : List String) (b : Selector) (input : BuildInput),
    Enters Call.Refusal.engine HalfBuilt.inputs s deeds es ∧
      s.calls = [Call.opened "run" false false
        (.finished (.error (.build groups (.failed ["no"]))))] ∧
      entriesOf 0 0 es = [input.resultOf b Call.Refusal.output] ∧ entriesOf 0 1 es = [] ∧
      s.ledger.cache = recorded es := by
  obtain ⟨s, deeds, groups, hfollows, hcalls⟩ := HalfBuilt.follows
  obtain ⟨es, henters⟩ := hfollows.enters
  obtain ⟨hcache, -, haccounts, -⟩ := henters.cache_sound
  have hcall : s.calls[0]? = some (Call.opened "run" false false
      (.finished (.error (.build groups (.failed ["no"]))))) := by
    rw [hcalls]
    rfl
  have haccount := haccounts 0 _ hcall rfl
  have hends : endsOf 0 0 HalfBuilt.inputs = [.returned (.ok Call.Refusal.output)] := rfl
  have hends' : endsOf 0 1 HalfBuilt.inputs = [.returned (.error (.failed ["no"]))] := rfl
  obtain ⟨b, input, out, -, hout, hentries⟩ := (haccount 0).resolve_right fun h =>
    h.1 Call.Refusal.output (by simp [hends])
  rw [hends] at hout
  cases hout
  have hnone : entriesOf 0 1 es = [] := by
    rcases haccount 1 with ⟨b, input, out, -, hout, -⟩ | ⟨-, hnone⟩
    · rw [hends'] at hout
      cases hout
    · exact hnone
  exact ⟨s, deeds, es, groups, b, input, henters, hcalls, hentries, hnone, hcache⟩

end Session

end Conductor
