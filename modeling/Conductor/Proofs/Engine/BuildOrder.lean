import Conductor.Proofs.Engine.Account
import Conductor.Proofs.Engine.Partition
import Conductor.Proofs.Engine.Session
/-!
# Engine — builds in any order

Where every build gives an artifact that does not depend on the number of the build,
the results of a build stage are known when it begins (`BuildStage.answers`): for each
unit what is found in the ledger, or what its own build gives. The stage comes to its
end whatever the order of its steps is, with these results, and has asked the builder
once for each unit that was not found (`BuildStage.built_in_any_order`).
-/

namespace Conductor

namespace BuildStage

variable {e : Engine} {v : ValidComposition} {b : Builder} {o : CallOptions}
variable {l l₀ : Ledger} {s s₀ : BuildStage} {u : BuildUnit} {fx : List Effect}
  {make : BuildInput → BuildOutput}

/-- Every build gives the artifact that is made of its input. -/
def Makes (make : BuildInput → BuildOutput) : BuildRule :=
  fun input how => how = .returned (.ok (make input))

/-- What is made does not depend on the number of the build. -/
def Anonymous (make : BuildInput → BuildOutput) : Prop :=
  ∀ input n, make { input with build := n } = make input

/-- The result of a unit: the one found, or that of its own build. -/
def answer (make : BuildInput → BuildOutput) (l : Ledger) (s : BuildStage) (u : BuildUnit) :
    BuildResult :=
  match l.cache.get? u.fingerprint with
  | some hit => hit.forGroups u.groupIds
  | none => s.resultOf u (make (s.inputOf u 0))

/-- The results of all units, in their order. -/
def answers (make : BuildInput → BuildOutput) (l : Ledger) (s : BuildStage) : List BuildResult :=
  s.units.map (s.answer make l)

/-- What the builder was asked for the unit at a place: nothing when the unit is found in
the ledger `l`, else its input, once. -/
def AskedIfMissing (b : Selector) (l : Ledger) (s : BuildStage) (i : Nat) (u : BuildUnit)
    (fx : List Effect) : Prop :=
  (l.cache.get? u.fingerprint ≠ none → asked i fx = []) ∧
    (l.cache.get? u.fingerprint = none → ∃ n, asked i fx = [(b, s.inputOf u n)])

/-! ## The answers -/

theorem answer_groupIds : (s.answer make l u).groupIds = u.groupIds := by
  unfold answer
  split <;> rfl

/-- Where the ledger is in order, a result has the fingerprint of its unit. -/
theorem answer_fingerprint (hl : l.Keyed) : (s.answer make l u).fingerprint = u.fingerprint := by
  unfold answer
  split
  · rename_i hit hget
    exact hl u.fingerprint hit hget
  · rfl

/-- The result of a unit is its answer. -/
theorem Settled.eq_answer {asks : List (Selector × BuildInput)} {r : BuildResult}
    (h : Settled (Makes make) l s u asks r) (anonymous : Anonymous make) :
    r = s.answer make l u := by
  unfold answer
  rcases h with ⟨-, hit, hget, rfl⟩ | ⟨hmiss, n, -, out, hout, rfl⟩
  · rw [hget]
  · cases hout
    rw [hmiss]
    exact congrArg _ (anonymous (s.inputOf u 0) n)

/-- What was asked for a unit with its result. -/
theorem Settled.askedIfMissing {rule : BuildRule} {r : BuildResult} {i : Nat}
    (h : Settled rule l s u (asked i fx) r) : AskedIfMissing s.builder l s i u fx := by
  rcases h with ⟨hasked, hit, hget, -⟩ | ⟨hmiss, n, hasked, -⟩
  · exact ⟨fun _ => hasked, fun hmiss => by rw [hmiss] at hget; cases hget⟩
  · exact ⟨fun hne => absurd hmiss hne, fun _ => ⟨n, hasked⟩⟩

/-- **A stage that is over has its answers**, where every build gives what is made. -/
theorem Accounted.outcome_eq (h : Accounted (Makes make) l₀ s₀ l s fx)
    (anonymous : Anonymous make) (hover : s.isOver = true) :
    s.outcome false = .ok (s₀.answers make l₀) ∧
      ∀ i u, s₀.units[i]? = some u → AskedIfMissing s₀.builder l₀ s₀ i u fx := by
  have clean : s.failure = none := by
    -- a failure is that of a unit whose build gave no artifact
    by_contra hf
    obtain ⟨i, u, hslot⟩ := h.blamed.1 hf
    obtain ⟨-, n, -, how, rfl, hbad⟩ := h.slots i _ hslot
    exact hbad _ rfl
  obtain ⟨bs, hbs, hlength, hunits⟩ := h.results hover clean false
  refine ⟨hbs.trans (congrArg _ (List.ext_getElem? fun i => ?_)), fun i u hu => ?_⟩
  · rw [answers, List.getElem?_map]
    cases hu : s₀.units[i]? with
    | none =>
      rw [List.getElem?_eq_none_iff] at hu
      rw [Option.map_none, List.getElem?_eq_none_iff, hlength]
      exact hu
    | some u =>
      obtain ⟨r, hr, hsettled⟩ := hunits i u hu
      rw [hr, hsettled.eq_answer anonymous]
      rfl
  · obtain ⟨r, -, hsettled⟩ := hunits i u hu
    exact hsettled.askedIfMissing

/-- **Builds in any order**: with what an engine remembers at any point, the results of the
builds of a composition are settled when the stage begins. There is one for each unit, with
its fingerprint, and their groups divide those to be built. In whatever order the steps of
the stage are taken, no more than four for each unit can be, there is one until the stage is
over, and then it gives these results and has asked the builder for each unit that was not
found, once, and for nothing else. -/
theorem built_in_any_order {purpose : Purpose} {c : Composition} {session : Session}
    {deeds : List Deed} (valid : Composition.validateFor purpose c = .ok v)
    (reached : Session.Reaches e session deeds) (planned : Call.planned e false v b o = .ok s₀)
    (anonymous : Anonymous make) :
    e.planBuilds v b = .ok s₀.units ∧
      (s₀.answers make session.ledger).map BuildResult.fingerprint =
        s₀.units.map BuildUnit.fingerprint ∧
      BuildUnit.Divides (BuildUnit.groupsToBuild v)
        ((s₀.answers make session.ledger).map BuildResult.groupIds) ∧
      ∀ n l s fx, Course (Makes make) session.ledger s₀ n l s fx →
        n + s.stepsLeft ≤ 4 * s₀.units.length ∧
        (s.isOver = false →
          ∃ l' s' fx', Course (Makes make) session.ledger s₀ (n + 1) l' s' fx') ∧
        (s.isOver = true → s.outcome false = .ok (s₀.answers make session.ledger) ∧
          (∀ i u, s₀.units[i]? = some u → AskedIfMissing b.id session.ledger s₀ i u fx) ∧
          ∀ i, s₀.units[i]? = none → asked i fx = []) := by
  obtain ⟨-, hplan, hbuilder, hnew, -, hf⟩ := planned_cases planned
  have distinct : ((BuildUnit.groupsToBuild v).map Group.id).Nodup :=
    (Composition.ids_nodup valid).sublist (List.filter_sublist.map Group.id)
  refine ⟨hplan, ?_, ?_, fun n l s fx course => ⟨?_, fun hopen => ?_, fun hover => ?_⟩⟩
  · rw [answers, List.map_map]
    exact List.map_congr_left fun u _ => answer_fingerprint reached.keyed
  · have hids : (s₀.answers make session.ledger).map BuildResult.groupIds =
        s₀.units.map BuildUnit.groupIds := by
      rw [answers, List.map_map]
      exact List.map_congr_left fun u _ => answer_groupIds
    rw [hids]
    exact BuildUnit.divides_of_plan hplan distinct
  · have hbound := course.bounded
    rwa [stepsLeft_of_planned hnew, ← List.length_map BuildSlot.unit] at hbound
  · exact course.exists_next (fun input => ⟨_, rfl⟩) hopen
  · have account := course.accounted hnew hf
    obtain ⟨hresults, hasked⟩ := account.outcome_eq anonymous hover
    refine ⟨hresults, hbuilder ▸ hasked, fun i hi => account.beyond i ?_⟩
    rw [← account.same.units_eq, units, List.getElem?_map, Option.map_eq_none_iff] at hi
    exact hi

/-! One group has been built, and is built again between two others. -/

namespace Again

def group (id : String) (dependencies : List Dependency) : Group :=
  ⟨id, ⟨1, .zero⟩, ⟨[], dependencies⟩, [], [], ⟨none, []⟩⟩

/-- The group that has been built, and the two others. -/
def known : Group := group "known" []
def left : Group := group "left" [⟨"m", "1"⟩]
def right : Group := group "right" [⟨"n", "1"⟩]

def composition (groups : List Group) : Composition :=
  ⟨⟨"", ""⟩, ⟨"plan", "", 0, "exec:bin", "", [], none, [], none⟩, groups⟩

def builder : Builder := ⟨Local.builderId, [], fun _ => .ok ()⟩

def engine : Engine := ⟨⟨[builder], []⟩, .standard, ⟨"/home"⟩⟩

/-- The artifact is named by the groups that it is for. -/
def named (input : BuildInput) : BuildOutput := ⟨",".intercalate input.groupIds, []⟩

def unit (g : Group) : BuildUnit :=
  ⟨g.buildKey, [g.id], [], g.build.versions, [],
    fingerprint builder.id "plan" g.buildKey (.object [])⟩

def stage (slots : List BuildSlot) : BuildStage :=
  ⟨builder.id, "plan", "/home/plans/plan", slots, false, none⟩

/-! The first call. -/

def begun : Session.Input := .start "run" false (.build (composition [known]) ⟨none, none, false⟩)

/-- The session with the units of its call in a stage. -/
def session (l : Ledger) (slots : List BuildSlot) : Session :=
  ⟨l, [], [Call.opened "run" false false (.building none (stage slots))]⟩

/-- The result of the group that has been built. -/
def hit : BuildResult := ⟨builder.id, "known", ["known"], (unit known).fingerprint, []⟩

/-- What is remembered of it. -/
def ledger : Ledger := Ledger.empty.countStart.enter hit

theorem reached : ∃ deeds, Session.Reaches engine
    (session ledger [⟨unit known, .joined (some hit)⟩]) deeds := by
  have h₀ : Session.Reaches engine (session .empty [⟨unit known, .planned⟩]) _ :=
    .next (i := begun) .initial rfl
  have h₁ : Session.Reaches engine (session .empty [⟨unit known, .missing⟩]) _ :=
    h₀.next (i := .call 0 .proceed) rfl
  have h₂ : Session.Reaches engine
      (session Ledger.empty.countStart [⟨unit known, .building 0⟩]) _ :=
    h₁.next (i := .call 0 .proceed) rfl
  have h₃ : Session.Reaches engine (session Ledger.empty.countStart
      [⟨unit known, .ended 0 (.returned (.ok ⟨"known", []⟩))⟩]) _ :=
    h₂.next (i := .call 0 (.finish 0 (.returned (.ok ⟨"known", []⟩)))) rfl
  exact ⟨_, h₃.next (i := .call 0 (.join 0)) rfl⟩

theorem found : ledger.cache.get? (unit known).fingerprint = some hit :=
  Table.get?_insert_self

theorem left_ne : (unit left).fingerprint ≠ hit.fingerprint := by decide +kernel

theorem right_ne : (unit right).fingerprint ≠ hit.fingerprint := by decide +kernel

/-- Neither of the others is found. -/
theorem missed : ledger.cache.get? (unit left).fingerprint = none ∧
    ledger.cache.get? (unit right).fingerprint = none :=
  ⟨Table.get?_insert_of_ne left_ne, Table.get?_insert_of_ne right_ne⟩

/-! The second call. -/

def valid : ValidComposition :=
  ⟨(composition [left, known, right]).complete [1, 1, 1], builder.id, none, [1, 1, 1]⟩

theorem validateFor_eq :
    Composition.validateFor .build (composition [left, known, right]) = .ok valid := rfl

/-- The stage with its units in some progress. -/
def units (p p' p'' : UnitProgress) : BuildStage :=
  stage [⟨unit left, p⟩, ⟨unit known, p'⟩, ⟨unit right, p''⟩]

theorem planned_eq : Call.planned engine false valid builder ⟨none, none, false⟩ =
    .ok (units .planned .planned .planned) := rfl

/-- The unit that is found is done. -/
def done : UnitProgress := .joined (some hit)

/-- Both others are under way. -/
theorem launched : ∃ l fx, Course (Makes named) ledger (units .planned .planned .planned) 5 l
    (units (.building 1) done (.building 2)) fx := by
  obtain ⟨hleft, hright⟩ := missed
  have h₁ : Course (Makes named) ledger (units .planned .planned .planned) 1 ledger
      (units .missing .planned .planned) _ := .proceed .start <| by
    change some (look _ _ 0 (unit left)) = _
    rw [look, hleft]
    rfl
  have h₂ : Course (Makes named) ledger (units .planned .planned .planned) 2 ledger.countHit
      (units .missing done .planned) _ := h₁.proceed <| by
    change some (look _ _ 1 (unit known)) = _
    rw [look, found]
    rfl
  have h₃ : Course (Makes named) ledger (units .planned .planned .planned) 3 ledger.countHit
      (units .missing done .missing) _ := h₂.proceed <| by
    change some (look _ _ 2 (unit right)) = _
    rw [look, show ledger.countHit.cache = ledger.cache from rfl, hright]
    rfl
  have h₄ : Course (Makes named) ledger (units .planned .planned .planned) 4
      ledger.countHit.countStart (units (.building 1) done .missing) _ := h₃.proceed rfl
  exact ⟨_, _, h₄.proceed rfl⟩

/-- Either of them may be the last to end. -/
theorem exists_course {m : Nat} (hm : m ∈ [1, 2]) :
    ∃ n l s fx, Course (Makes named) ledger (units .planned .planned .planned) n l s fx ∧
      s.isOver = true ∧ fx.getLast? = some (.event (.buildFinished m true)) := by
  obtain ⟨l, fx, h⟩ := launched
  have hleft : Makes named ((stage []).inputOf (unit left) 1) (.returned (.ok ⟨"left", []⟩)) := rfl
  have hright : Makes named ((stage []).inputOf (unit right) 2) (.returned (.ok ⟨"right", []⟩)) :=
    rfl
  rcases List.mem_pair.1 hm with rfl | rfl
  · have hend := (h.finish (i := 2) rfl hright rfl).finish (i := 0) rfl hleft rfl
    exact ⟨_, _, _, _, (hend.join (i := 0) rfl).join (i := 2) rfl, rfl,
      by simp [BuildEnd.isSuccess]⟩
  · have hend := (h.finish (i := 0) rfl hleft rfl).finish (i := 2) rfl hright rfl
    exact ⟨_, _, _, _, (hend.join (i := 2) rfl).join (i := 0) rfl, rfl,
      by simp [BuildEnd.isSuccess]⟩

/-- What a unit gives that is built. -/
def result (g : Group) : BuildResult := ⟨builder.id, g.id, [g.id], (unit g).fingerprint, []⟩

theorem answers_eq : (units .planned .planned .planned).answers named ledger =
    [result left, hit, result right] := by
  obtain ⟨hleft, hright⟩ := missed
  change [answer named ledger _ (unit left), answer named ledger _ (unit known),
    answer named ledger _ (unit right)] = _
  simp only [answer, hleft, found, hright]
  rfl

end Again

/-- A unit that is found stands between two that are built. Whichever of these ends last,
the results are in the order of the units, and the builder was asked for the two only. -/
theorem built_in_any_order_of_three :
    ∃ session deeds s₀, Session.Reaches Again.engine session deeds ∧
      Call.planned Again.engine false Again.valid Again.builder ⟨none, none, false⟩ = .ok s₀ ∧
      ∀ m ∈ [1, 2], ∃ n l s fx, Course (Makes Again.named) session.ledger s₀ n l s fx ∧
        fx.getLast? = some (.event (.buildFinished m true)) ∧
        s.outcome false = .ok [Again.result Again.left, Again.hit, Again.result Again.right] ∧
        (∃ k, asked 0 fx = [(Again.builder.id, s₀.inputOf (Again.unit Again.left) k)]) ∧
        asked 1 fx = [] ∧
        ∃ k, asked 2 fx = [(Again.builder.id, s₀.inputOf (Again.unit Again.right) k)] := by
  obtain ⟨deeds, reached⟩ := Again.reached
  refine ⟨_, deeds, _, reached, Again.planned_eq, fun m hm => ?_⟩
  obtain ⟨n, l, s, fx, course, hover, hlast⟩ := Again.exists_course hm
  have anonymous : Anonymous Again.named := fun _ _ => rfl
  obtain ⟨-, -, -, stage⟩ :=
    built_in_any_order Again.validateFor_eq reached Again.planned_eq anonymous
  obtain ⟨houtcome, hasked, -⟩ := (stage n l s fx course).2.2 hover
  have hfound : Again.ledger.cache.get? (Again.unit Again.known).fingerprint ≠ none := by
    rw [Again.found]
    nofun
  exact ⟨n, l, s, fx, course, hlast, houtcome.trans (congrArg Except.ok Again.answers_eq),
    (hasked 0 _ rfl).2 Again.missed.1, (hasked 1 _ rfl).1 hfound, (hasked 2 _ rfl).2 Again.missed.2⟩

end BuildStage

end Conductor
