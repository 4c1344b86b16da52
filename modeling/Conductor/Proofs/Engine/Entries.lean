import Conductor.Proofs.Engine.Preflight
import Conductor.Proofs.Engine.StageSteps
/-!
# Engine — what is entered in the cache

The cache of an engine is written to in one place: where a call joins a unit whose build
has returned an artifact. `Session.Enters` keeps a record of what is entered, and the
cache is what the record makes of an empty one (`Enters.cache_eq`). For each unit of a
call there is a story of three lists: what the builder was asked, how its builds ended,
and what was entered (`Call.Recounted`). From the step lemma for the stories it follows
that, once the builds of a call are over, it has entered the results of the units whose
build returned an artifact, each once, whatever became of the others.
-/

namespace Conductor

/-- The artifact that the task of a build gave. -/
def BuildEnd.output? : BuildEnd → Option BuildOutput
  | .returned (.ok out) => some out
  | _ => none

/-- The result that an output of a builder is, for what the builder was asked. -/
def BuildInput.resultOf (b : Selector) (input : BuildInput) (out : BuildOutput) : BuildResult :=
  ⟨b, out.artifact, input.groupIds, input.fingerprint, out.dependencies⟩

/-- How the build of a unit ends, by an input. -/
def CallInput.ends (unit : Nat) : CallInput → Option BuildEnd
  | .finish n how => if n = unit then some how else none
  | _ => none

namespace Call

open BuildStage (asked)

/-- What a call enters in the cache by an input, and for which unit. -/
def entered (c : Call) : CallInput → Option (Nat × BuildResult)
  | .join unit =>
    match c.phase with
    | .building _ s =>
      match s.slots[unit]? with
      | some ⟨u, .ended _ how⟩ => how.output?.map fun out => (unit, s.resultOf u out)
      | _ => none
    | _ => none
  | _ => none

/-- What the builder was asked for a unit, how its builds ended, and what was entered. -/
structure Story where
  asks : List (Selector × BuildInput)
  ends : List BuildEnd
  entries : List BuildResult

/-- Nothing was asked for the unit. -/
def Story.none : Story := ⟨[], [], []⟩

/-- A builder was asked, and has not come to an end. -/
def Story.asked (b : Selector) (input : BuildInput) : Story := ⟨[(b, input)], [], []⟩

/-- A build has ended that was not joined. -/
def Story.ended (b : Selector) (input : BuildInput) (how : BuildEnd) : Story :=
  ⟨[(b, input)], [how], []⟩

/-- A build was joined: what it gave was entered. -/
def Story.told (b : Selector) (input : BuildInput) (how : BuildEnd) : Story :=
  ⟨[(b, input)], [how], (how.output?.map (input.resultOf b)).toList⟩

/-- The story of a unit is told to its end. -/
def Story.IsOver (x : Story) : Prop := x = .none ∨ ∃ b input how, x = .told b input how

/-- The story of a unit, by its progress. -/
def SlotStory (s : BuildStage) (slot : BuildSlot) (x : Story) : Prop :=
  match slot.progress with
  | .planned => x = .none
  | .missing => x = .none
  | .building n => x = .asked s.builder (s.inputOf slot.unit n)
  | .ended n how => x = .ended s.builder (s.inputOf slot.unit n) how
  | .joined _ => x.IsOver

/-- **The stories of the units** of a call in a phase. -/
def Recounted (phase : CallPhase) (stories : Nat → Story) : Prop :=
  match phase with
  | .building _ s =>
    (∀ i slot, s.slots[i]? = some slot → SlotStory s slot (stories i)) ∧
      ∀ i, s.slots[i]? = none → stories i = .none
  | _ => ∀ i, (stories i).IsOver

/-- What an input adds to the story of a unit. -/
def chapter (c : Call) (j : CallInput) (fx : List Effect) (i : Nat) : Story where
  asks := asked i fx
  ends := (j.ends i).toList
  entries := ((c.entered j).toList.filter (·.1 = i)).map Prod.snd

/-- One story behind another. -/
def Story.append (x y : Story) : Story :=
  ⟨x.asks ++ y.asks, x.ends ++ y.ends, x.entries ++ y.entries⟩

variable {e : Engine} {l l' : Ledger} {c c' : Call} {j : CallInput} {fx : List Effect}
  {stories : Nat → Story} {s s' : BuildStage} {x : Story} {i unit : Nat} {u : BuildUnit}
  {p q : UnitProgress} {o : Option RunOrder} {n : Nat} {how : BuildEnd} {phase : CallPhase}

/-! ## Stories -/

@[simp] theorem Story.append_none (x : Story) : x.append .none = x := by
  simp [append, none]

/-- Only the end of a unit's build and its joining are about the unit. -/
theorem ends_of_unit?_eq_none (h : j.unit? = .none) : j.ends i = .none := by
  cases j with
  | finish n how => cases h
  | _ => rfl

theorem entered_of_unit?_eq_none (h : j.unit? = .none) : c.entered j = .none := by
  cases j with
  | join n => cases h
  | _ => rfl

/-- Where nothing is said of builds, no story goes on. -/
theorem chapter_eq_none (hj : j.unit? = .none) (hfx : NoBuildSaid fx) :
    c.chapter j fx i = .none := by
  rw [chapter, ends_of_unit?_eq_none hj, entered_of_unit?_eq_none hj,
    noBuild_iff.1 hfx.noBuild]
  rfl

/-- A stage that is over has told the stories of all its units. -/
theorem Recounted.isOver (h : Recounted (.building o s) stories) (hover : s.isOver = true)
    (i : Nat) : (stories i).IsOver := by
  cases hi : s.slots[i]? with
  | none => exact .inl (h.2 i hi)
  | some slot =>
    have hjoined := List.all_eq_true.1 hover slot (List.mem_of_getElem? hi)
    have hstory := h.1 i slot hi
    obtain ⟨u, progress⟩ := slot
    cases progress with
    | joined r => exact hstory
    | planned => cases hjoined
    | missing => cases hjoined
    | building n => cases hjoined
    | ended n how => cases hjoined

/-- Behind the builds all stories are told. -/
theorem Recounted.of_over (h : Recounted c.phase stories) (hover : c.BuildsOver) (i : Nat) :
    (stories i).IsOver := by
  unfold Recounted at h
  split at h
  · rename_i hphase
    rw [BuildsOver, hphase] at hover
    cases hover
  · exact h i

/-- What was entered is the result of a build that returned an artifact. -/
theorem Recounted.told_of_mem {r : BuildResult} (h : Recounted phase stories)
    (hr : r ∈ (stories i).entries) : ∃ b input out,
      stories i = .told b input (.returned (.ok out)) ∧ r = input.resultOf b out := by
  have of_over : (stories i).IsOver → ∃ b input out,
      stories i = .told b input (.returned (.ok out)) ∧ r = input.resultOf b out := by
    rintro (hnone | ⟨b, input, how, htold⟩)
    · rw [hnone] at hr
      cases hr
    · rw [htold] at hr ⊢
      obtain ⟨out, hout, rfl⟩ := Option.map_eq_some_iff.1 (Option.mem_toList.1 hr)
      cases how with
      | returned result =>
        cases result with
        | ok out => cases hout; exact ⟨b, input, out, rfl, rfl⟩
        | error error => cases hout
      | broke message => cases hout
  unfold Recounted at h
  split at h
  · rename_i o s
    cases hi : s.slots[i]? with
    | none =>
      rw [h.2 i hi] at hr
      cases hr
    | some slot =>
      have hstory := h.1 i slot hi
      obtain ⟨u, progress⟩ := slot
      cases progress with
      | joined => exact of_over hstory
      | planned => rw [hstory] at hr; cases hr
      | missing => rw [hstory] at hr; cases hr
      | building n => rw [hstory] at hr; cases hr
      | ended n how => rw [hstory] at hr; cases hr
  · exact of_over (h i)

/-- Where there is no stage, all stories are told to their end. -/
theorem Recounted.over (hover : c.BuildsOver) (h : ∀ i, (stories i).IsOver) :
    Recounted c.phase stories := by
  unfold Recounted
  split
  · rename_i hphase
    rw [BuildsOver, hphase] at hover
    cases hover
  · exact h

/-- **One unit moves on**, and its story with it. -/
theorem Recounted.put (h : Recounted (.building o s) stories) (hslot : s.slots[i]? = some ⟨u, q⟩)
    (hs : s'.slots = (s.put i p).slots) (hsame : s'.builder = s.builder ∧ s'.plan = s.plan ∧
      s'.source = s.source) {more : Nat → Story} (hothers : ∀ k, i ≠ k → more k = .none)
    (hnew : SlotStory s ⟨u, p⟩ ((stories i).append (more i))) :
    Recounted (.building o s') fun k => (stories k).append (more k) := by
  obtain ⟨hbuilder, hplan, hsource⟩ := hsame
  have hinput : ∀ u n, s'.inputOf u n = s.inputOf u n := by
    intro u n
    simp only [BuildStage.inputOf, hplan, hsource]
  have hstory : SlotStory s' = SlotStory s := by
    funext slot x
    simp only [SlotStory, hinput, hbuilder]
  refine ⟨fun k slot hk => ?_, fun k hk => ?_⟩
  · rw [hs, BuildStage.getElem?_put hslot] at hk
    rw [hstory]
    dsimp only
    split at hk
    · rename_i hik
      cases hk
      exact hik ▸ hnew
    · rename_i hik
      rw [hothers k hik, Story.append_none]
      exact h.1 k slot hk
  · rw [hs, BuildStage.getElem?_put hslot] at hk
    dsimp only
    split at hk
    · cases hk
    · rename_i hik
      rw [hothers k hik, Story.append_none]
      exact h.2 k hk

/-- **The step lemma**: the stories go on as the inputs and the effects say. -/
theorem Recounted.step (h : Recounted c.phase stories) (step : StageStep l c j l' c' fx) :
    Recounted c'.phase fun k => (stories k).append (c.chapter j fx k) := by
  cases step with
  | @proceed o s s' l' fx hphase hs =>
    rw [hphase] at h
    have hasks : ∀ k, c.chapter .proceed fx k = ⟨asked k fx, [], []⟩ := fun k => rfl
    simp only [hasks]
    rcases BuildStage.proceed_cases hs with ⟨i, u, hit, hslot, -, rfl, -, rfl⟩ |
      ⟨i, u, hslot, -, rfl, -, rfl⟩ | ⟨i, u, hslot, rfl, -, rfl⟩
    · have hstory : stories i = .none := h.1 i _ hslot
      refine h.put hslot rfl ⟨rfl, rfl, rfl⟩ (fun _ _ => rfl) ?_
      rw [hstory]
      exact .inl rfl
    · have hstory : stories i = .none := h.1 i _ hslot
      refine h.put hslot rfl ⟨rfl, rfl, rfl⟩ (fun _ _ => rfl) ?_
      rw [hstory]
      rfl
    · have hstory : stories i = .none := h.1 i _ hslot
      refine h.put hslot rfl ⟨rfl, rfl, rfl⟩ (fun k hk => ?_) ?_
      · rw [BuildStage.asked_launch, if_neg hk]
        rfl
      · rw [hstory, BuildStage.asked_launch, if_pos rfl]
        rfl
  | @finish o s s' unit how fx hphase hs =>
    rw [hphase] at h
    obtain ⟨u, n, told, hslot, rfl, rfl⟩ := BuildStage.finish_cases hs
    have hchapter : ∀ k, c.chapter (.finish unit how) (told.map .event) k =
        ⟨[], if unit = k then [how] else [], []⟩ := by
      intro k
      rw [chapter, BuildStage.asked_events, CallInput.ends]
      split <;> rfl
    have hstory : stories unit = .asked s.builder (s.inputOf u n) := h.1 unit _ hslot
    simp only [hchapter]
    refine h.put hslot rfl ⟨rfl, rfl, rfl⟩ (fun k hk => by rw [if_neg hk]; rfl) ?_
    rw [hstory, if_pos rfl]
    rfl
  | @join o s s' unit l' hphase hs =>
    rw [hphase] at h
    obtain ⟨-, u, n, how, hslot, hcase⟩ := BuildStage.join_cases hs
    have hstory : stories unit = .ended s.builder (s.inputOf u n) how := h.1 unit _ hslot
    have hentered : c.entered (.join unit) =
        how.output?.map fun out => (unit, s.resultOf u out) := by
      rw [entered, hphase]
      simp only [hslot]
    have hchapter : ∀ k, c.chapter (.join unit) [] k =
        ⟨[], [], if unit = k then (how.output?.map (s.resultOf u)).toList else []⟩ := by
      intro k
      rw [chapter, hentered]
      cases how.output? with
      | none => simp [CallInput.ends]
      | some out => by_cases hk : unit = k <;> simp [hk, CallInput.ends]
    have hnew : ∀ r, SlotStory s ⟨u, .joined r⟩ ((stories unit).append
        ⟨[], [], if unit = unit then (how.output?.map (s.resultOf u)).toList else []⟩) := by
      intro r
      rw [hstory, if_pos rfl]
      exact .inr ⟨s.builder, s.inputOf u n, how, rfl⟩
    simp only [hchapter]
    rcases hcase with ⟨out, -, rfl, -⟩ | ⟨failure, -, -, rfl⟩
    · exact h.put hslot rfl ⟨rfl, rfl, rfl⟩ (fun k hk => by rw [if_neg hk]; rfl) (hnew _)
    · exact h.put hslot rfl ⟨rfl, rfl, rfl⟩ (fun k hk => by rw [if_neg hk]; rfl) (hnew _)
  | stays hj hphase hfx =>
    simp only [chapter_eq_none hj hfx, Story.append_none, hphase]
    exact h
  | passes hj hover hc' _ hfx =>
    simp only [chapter_eq_none hj hfx, Story.append_none]
    refine .over hc' fun i => ?_
    cases hphase : c.phase with
    | building o s =>
      rw [hphase] at h
      exact h.isOver (hover o s hphase) i
    | _ => exact h.of_over (by rw [BuildsOver, hphase]; rfl) i

/-- What is entered is all that a step changes in the cache. -/
theorem StageStep.cache_eq (h : StageStep l c j l' c' fx) :
    l'.cache = match c.entered j with
      | some x => l.cache.insert x.2.fingerprint x.2
      | .none => l.cache := by
  cases h with
  | proceed _ hs =>
    rcases BuildStage.proceed_cases hs with ⟨_, _, _, _, _, _, rfl, _⟩ | ⟨_, _, _, _, _, rfl, _⟩ |
      ⟨_, _, _, _, rfl, _⟩
    · rfl
    · rfl
    · rfl
  | finish => rfl
  | @join o s s' unit l' hphase hs =>
    obtain ⟨-, u, n, how, hslot, hcase⟩ := BuildStage.join_cases hs
    rw [entered, hphase]
    simp only [hslot]
    rcases hcase with ⟨out, rfl, -, rfl⟩ | ⟨failure, hbad, rfl, -⟩
    · rfl
    · cases how with
      | returned result =>
        cases result with
        | ok out => exact absurd rfl (hbad out)
        | error error => rfl
      | broke message => rfl
  | stays hj => rw [entered_of_unit?_eq_none hj]
  | passes hj _ _ hsame => rw [entered_of_unit?_eq_none hj, hsame.cache]

/-- A call begins with no story. -/
theorem recounted_start (e : Engine) (runId : String) (canceled : Bool) (r : Request) :
    Recounted (start e runId canceled r).1.phase (fun _ => .none) ∧
      NoBuildSaid (start e runId canceled r).2 := by
  rcases start_cases e runId canceled r with ⟨o, s, hphase, hfx, -, hnew⟩ | ⟨hover, hsaid⟩
  · rw [hphase, hfx]
    refine ⟨⟨fun i slot hi => ?_, fun _ _ => rfl⟩, noBuildSaid_nil⟩
    rw [SlotStory, hnew slot (List.mem_of_getElem? hi)]
  · exact ⟨.over hover fun _ => .inl rfl, hsaid⟩

end Call

namespace Session

open BuildStage (asked)
open Call (Story Recounted)

/-- A result that a call has entered for one of its units. -/
structure Entry where
  call : Nat
  unit : Nat
  result : BuildResult

/-- What is entered by an input. -/
def entered (s : Session) : Input → Option Entry
  | .call k j => (s.calls[k]?).bind fun c => (c.entered j).map fun x => ⟨k, x.1, x.2⟩
  | _ => none

/-- A session behind some inputs, with all that was done and all that was entered. -/
inductive Enters (e : Engine) : List Input → Session → List Deed → List Entry → Prop
  | start : Enters e [] (ofEngine e) [] []
  | next {is : List Input} {s t : Session} {deeds more : List Deed} {es : List Entry} {i : Input} :
    Enters e is s deeds es → s.step e i = some (t, more) →
      Enters e (is ++ [i]) t (deeds ++ more) (es ++ (s.entered i).toList)

/-- How the build of a unit of a call ends, by an input. -/
def Input.ends (k unit : Nat) : Input → Option BuildEnd
  | .call n j => if n = k then j.ends unit else none
  | _ => none

/-- How the builds of a unit of a call have ended. -/
def endsOf (k unit : Nat) (is : List Input) : List BuildEnd := is.filterMap (Input.ends k unit)

/-- What a call has entered for a unit. -/
def entriesOf (k unit : Nat) (es : List Entry) : List BuildResult :=
  (es.filter fun x => x.call = k ∧ x.unit = unit).map Entry.result

/-- The story of a unit of a call. -/
def storyOf (k : Nat) (is : List Input) (deeds : List Deed) (es : List Entry) (unit : Nat) :
    Story :=
  ⟨asked unit (deedsOf k deeds), endsOf k unit is, entriesOf k unit es⟩

/-- The table that entries make of an empty one. -/
def recorded (es : List Entry) : Table BuildResult :=
  es.foldl (fun t x => t.insert x.result.fingerprint x.result) []

variable {e : Engine} {s t : Session} {i : Input} {is is' : List Input} {deeds more : List Deed}
  {es es' : List Entry} {k unit : Nat} {c c' : Call} {fp : String} {r : BuildResult}

/-- Every session has a record of what was entered. -/
theorem Follows.enters (h : Follows e is s deeds) : ∃ es, Enters e is s deeds es := by
  induction h with
  | start => exact ⟨[], .start⟩
  | next _ step ih =>
    obtain ⟨es, ih⟩ := ih
    exact ⟨_, ih.next step⟩

theorem Enters.follows (h : Enters e is s deeds es) : Follows e is s deeds := by
  induction h with
  | start => exact .start
  | next _ step ih => exact ih.next step

/-! ## The record and the cache -/

/-- What is entered is all that a step of a session changes in the cache. -/
theorem cache_step (h : s.step e i = some (t, more)) :
    t.ledger.cache = match s.entered i with
      | some x => s.ledger.cache.insert x.result.fingerprint x.result
      | none => s.ledger.cache := by
  cases i with
  | call k j =>
    obtain ⟨c, l', c', fx, hc, hstep, -, rfl, -, -⟩ := stepCall_cases h
    rw [(Call.StageStep.of_step hstep).cache_eq, entered, hc, Option.bind_some]
    cases c.entered j <;> rfl
  | start runId canceled r =>
    cases (Move.of_step h).1 with
    | begins _ _ _ hledger => rw [hledger]; rfl
    | steps hi => cases hi
    | attends hi => cases hi
    | rests hi => cases hi
  | checkup runner a =>
    cases (Move.of_step h).1 with
    | steps _ _ hstep hi hledger =>
      obtain ⟨r, rfl⟩ := hi.resolve_left nofun
      rw [hledger, (Call.StageStep.of_step hstep).cache_eq]
      rfl
    | attends _ _ hledger => rw [hledger]; rfl
    | rests _ hledger => rw [hledger]; rfl

/-- **The cache is what the record makes of it**: nothing else is written to it, and
nothing is taken out. -/
theorem Enters.cache_eq (h : Enters e is s deeds es) : s.ledger.cache = recorded es := by
  induction h with
  | start => rfl
  | @next is s t deeds more es i _ step ih =>
    rw [cache_step step, recorded, List.foldl_append, ← recorded, ← ih]
    cases s.entered i <;> rfl

/-- An entry is that of the last with its fingerprint. -/
theorem exists_of_recorded (h : (recorded es).get? fp = some r) :
    ∃ x ∈ es, x.result = r ∧ r.fingerprint = fp := by
  induction es using List.reverseRecOn with
  | nil => cases h
  | append_singleton es x ih =>
    rw [recorded, List.foldl_append, ← recorded] at h
    rw [List.foldl_cons, List.foldl_nil, Table.get?_insert] at h
    split at h
    · rename_i hfp
      cases h
      exact ⟨x, by simp, rfl, hfp.symm⟩
    · obtain ⟨y, hy, hresult⟩ := ih h
      exact ⟨y, List.mem_append_left _ hy, hresult⟩

/-- What was entered is there. -/
theorem recorded_of_mem {x : Entry} (h : x ∈ es) :
    (recorded es).get? x.result.fingerprint ≠ none := by
  induction es using List.reverseRecOn with
  | nil => cases h
  | append_singleton es y ih =>
    rw [recorded, List.foldl_append, ← recorded, List.foldl_cons, List.foldl_nil,
      Table.get?_insert]
    split
    · nofun
    · rename_i hne
      rcases List.mem_append.1 h with h | h
      · exact ih h
      · exact absurd (List.mem_singleton.1 h ▸ rfl) hne

/-- **Nothing is taken out.** -/
theorem get?_ne_none_of_step (h : s.step e i = some (t, more))
    (hs : s.ledger.cache.get? fp ≠ none) : t.ledger.cache.get? fp ≠ none := by
  rw [cache_step h]
  split
  · rw [Table.get?_insert]
    split
    · nofun
    · exact hs
  · exact hs

/-! ## The stories of a session -/

theorem storyOf_append : storyOf k (is ++ is') (deeds ++ more) (es ++ es') unit =
    (storyOf k is deeds es unit).append (storyOf k is' more es' unit) := by
  simp [storyOf, Story.append, endsOf, entriesOf, List.filterMap_append]

/-- A step of the call itself adds a chapter to its stories. -/
theorem storyOf_own {j : CallInput} (hc : s.calls[k]? = some c) :
    storyOf k [.call k j] more (s.entered (.call k j)).toList unit =
      c.chapter j (deedsOf k more) unit := by
  have hends : endsOf k unit [.call k j] = (j.ends unit).toList := by
    simp only [endsOf, List.filterMap_cons, Input.ends, if_true, List.filterMap_nil]
    cases j.ends unit <;> rfl
  have hentries : entriesOf k unit (s.entered (.call k j)).toList =
      ((c.entered j).toList.filter (·.1 = unit)).map Prod.snd := by
    rw [entriesOf, entered, hc, Option.bind_some]
    cases c.entered j with
    | none => rfl
    | some x => by_cases hx : x.1 = unit <;> simp [hx]
  rw [storyOf, hends, hentries]
  rfl

/-- Any other step adds what is asked in it, if that. -/
theorem storyOf_other (hi : ∀ j, i ≠ .call k j) :
    storyOf k [i] more (s.entered i).toList unit = ⟨asked unit (deedsOf k more), [], []⟩ := by
  cases i with
  | call n j =>
    have hn : n ≠ k := fun h => hi j (h ▸ rfl)
    have hentries : entriesOf k unit (s.entered (.call n j)).toList = [] := by
      refine List.map_eq_nil_iff.2 (List.filter_eq_nil_iff.2 fun x hx => ?_)
      rw [entered] at hx
      obtain ⟨c, -, hx⟩ := Option.bind_eq_some_iff.1 (Option.mem_toList.1 hx)
      obtain ⟨y, -, rfl⟩ := Option.map_eq_some_iff.1 hx
      simp [hn]
    rw [storyOf, hentries]
    simp [endsOf, Input.ends, hn]
  | start runId canceled r => rfl
  | checkup runner a => rfl

/-- There is no story of a call that has not begun. -/
theorem Enters.unborn (h : Enters e is s deeds es) (hk : s.calls.length ≤ k) :
    storyOf k is deeds es unit = .none := by
  induction h with
  | start => rfl
  | @next is s t deeds more es i enters step ih =>
    have hle := (Move.of_step step).1.length_le
    have follows := enters.follows.next step
    have hnone : deedsOf k more = [] := by
      have hall := follows.deedsOf_eq_nil hk
      rw [deedsOf_append] at hall
      exact (List.append_eq_nil_iff.1 hall).2
    rw [storyOf_append, ih (by omega), storyOf_other, hnone]
    · rfl
    · rintro j rfl
      obtain ⟨c, -, -, -, hc, -⟩ := stepCall_cases step
      have hlt := (List.getElem?_eq_some_iff.1 hc).1
      omega

/-- **The run lemma**: at every point of a session the stories of a call are as its phase
says. -/
theorem Enters.recounted (h : Enters e is s deeds es) (hc : s.calls[k]? = some c) :
    Recounted c.phase (storyOf k is deeds es) := by
  induction h generalizing c with
  | start => cases hc
  | @next is s t deeds more es i enters step ih =>
    have happend : storyOf k (is ++ [i]) (deeds ++ more) (es ++ (s.entered i).toList) =
        fun unit => (storyOf k is deeds es unit).append
          (storyOf k [i] more (s.entered i).toList unit) :=
      funext fun unit => storyOf_append
    have hother : (∀ j, i ≠ .call k j) → Call.NoBuild (deedsOf k more) →
        ∀ unit, storyOf k [i] more (s.entered i).toList unit = .none := by
      intro hi hnone unit
      rw [storyOf_other hi, Call.noBuild_iff.1 hnone]
      rfl
    rw [happend]
    have hsees := Sees.of_step step hc
    generalize hfx : deedsOf k more = fx at hsees
    cases hsees with
    | begins runId canceled r hk =>
      obtain ⟨hstart, hsaid⟩ := Call.recounted_start e runId canceled r
      simp only [enters.unborn (Nat.le_of_eq hk.symm), hother (by simp) (hfx ▸ hsaid.noBuild),
        Story.append_none]
      exact hstart
    | own hc₀ hstep =>
      simp only [storyOf_own hc₀, hfx]
      exact (ih hc₀).step (Call.StageStep.of_step hstep)
    | @told _ _ runner a _ _ hc₀ hstep =>
      have hstory := (ih hc₀).step (Call.StageStep.of_step hstep)
      have hadded : ∀ unit, storyOf k [.checkup runner a] more
          (s.entered (.checkup runner a)).toList unit = ⟨asked unit (deedsOf k more), [], []⟩ :=
        fun unit => storyOf_other (by simp)
      simp only [hadded, hfx]
      exact hstory
    | attended hc₀ =>
      simp only [hother (by simp) (by simp [hfx, Call.NoBuild, Effect.isBuild]), Story.append_none]
      exact ih hc₀
    | idle hc₀ hi =>
      simp only [hother hi (by simp [hfx, Call.NoBuild]), Story.append_none]
      exact ih hc₀

end Session

end Conductor
