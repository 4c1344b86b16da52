import Conductor.Local.Builder
import Conductor.Local.Runner
import Conductor.Proofs.Engine.FailedBuilds
import Conductor.Proofs.Engine.Provisions
/-!
# Local backends — what the runner refuses

The local runner looks at its input before it starts anything: there have to be groups,
every group needs an artifact, and its configuration has to be read. An orchestration has
seen to most of this before. A composition that is valid has groups; the runner was asked
about the very configurations that it is handed (`RunOrder.accepts_of_input`); and an
artifact that the local builder returns is never empty (`Local.artifact_of_build`), nor is
one from the cache, which holds nothing else. What remains is an artifact that a composition
gives and that is empty: it counts as given, so that nothing is built for the group, and
the runner is left to refuse it (`Session.Follows.refused`).
-/

namespace Conductor

namespace Composition

/-- What there is to complain of in a composition: the first group that is given an empty
artifact. -/
def complaint? (c : Composition) : Option String :=
  (c.groups.find? fun g => c.givenArtifact g = some "").map fun g =>
    "group " ++ g.id ++ " has no artifact"

end Composition

/-! ## The backends -/

namespace Local

variable {d : Directories} {t : FileTree} {canceled : Bool} {input : BuildInput}
  {out : BuildOutput} {path : String}

/-- The empty path leads nowhere. -/
theorem find_empty : t.find "" = .error .notFound := rfl

/-- What can be run has a path. -/
theorem ne_empty_of_executable (h : executableFault? t path = none) : path ≠ "" := by
  rintro rfl
  rw [executableFault?, FileTree.metadata, find_empty] at h
  cases h

/-- A path without links is not empty: it starts at the root. -/
theorem ne_empty_of_canonical {place : String} (h : t.canonical path = .ok place) :
    place ≠ "" := by
  unfold FileTree.canonical at h
  cases hfind : t.find path with
  | error e => rw [hfind] at h; cases h
  | ok r =>
    rw [hfind] at h
    cases h
    simp [FileTree.pathOf]

/-- **The local builder returns no empty artifact.** -/
theorem artifact_of_build (h : build t canceled input = .ok out) : out.artifact ≠ "" := by
  unfold build at h
  -- a build that is canceled, has dependencies or a bad configuration returns nothing
  split at h
  · cases h
  split at h
  · cases h
  split at h
  · cases h
  dsimp only at h
  split at h
  · cases h
  rename_i hfault
  split at h
  · rename_i artifact hcanonical
    cases h
    exact ne_empty_of_canonical hcanonical
  · cases h
    exact ne_empty_of_executable hfault

/-- The only runner that is registered is the local one. -/
theorem runner_of_registry {s : Selector} {r : Runner} (h : (registry d).runner s = .ok r) :
    r = runner d := by
  unfold Registry.runner at h
  split at h
  · rename_i x hfind
    cases h
    exact List.mem_singleton.1 (List.mem_of_find?_eq_some hfind)
  · cases h

/-- The runner returns a complaint about its input exactly if it has one before it begins. -/
theorem result_run_iff {launcher : Launcher} {canceled : Nat → Bool} {input : RunInput}
    {reason : String} : (run launcher d canceled input t).1.result =
      .error (.invalidInput reason) ↔ inputFault? input = some (.invalidInput reason) := by
  unfold run
  cases inputFault? input with
  | some e => simp
  | none =>
    dsimp only
    split <;> simp

end Local

/-! ## The input -/

/-- A group as the local runner is handed it: it has an artifact, unless it is given an empty
one, and its configuration is read. -/
structure Local.Presented (c : Composition) (g : Group) (x : RunGroup) : Prop where
  id : x.id = g.id
  artifact : x.artifact = "" ↔ c.givenArtifact g = some ""
  config : ∃ config, Local.runnerConfig x.config = .ok config

/-- A composition that is valid has groups, and keeps them, with the defaults. -/
theorem Composition.groups_of_validate {c : Composition} {v : ValidComposition}
    (h : c.validate = .ok v) :
    c.groups ≠ [] ∧ v.composition.groups = c.groups.map (withDefaults c.settings) := by
  obtain ⟨ns, hwf⟩ := violations_eq_nil.1 (validateFor_eq_ok h).1
  exact ⟨hwf.groups, groups_of_validateFor h⟩

namespace RunOrder

variable {e : Engine} {c : Composition} {o : RunOrder} {builds : List BuildResult}
  {runId : String} {input : RunInput} {d : Directories} {g : Group} {i : Nat}

/-- Where there is an input, the runner has accepted the configuration of every group. -/
theorem accepts_of_input (h : o.input e runId builds = .ok input)
    (hg : g ∈ o.composition.composition.groups) :
    o.runner.accepts (o.groupConfig e g) = .ok () := by
  have hnone : o.refusal? e = none := by
    unfold RunOrder.input at h
    split at h
    · cases h
    · assumption
  have hmem : o.groupConfig e g ∈ o.configs e :=
    List.mem_cons_of_mem _ (List.mem_map_of_mem hg)
  have haccepts := List.findSome?_eq_none_iff.1 hnone _ hmem
  split at haccepts
  · assumption
  · cases haccepts

/-- **An artifact is missing only where none is given**: what is given is taken as it is, and
what is built is not empty. -/
theorem artifactOf_eq_empty (hstored : Call.Stored e c o builds)
    (hbuilt : ∀ r ∈ builds, r.artifact ≠ "") (hg : g ∈ c.groups) :
    artifactOf builds (Composition.withDefaults c.settings g) = "" ↔
      c.givenArtifact g = some "" := by
  have hgiven : (Composition.withDefaults c.settings g).run.artifact = c.givenArtifact g :=
    Composition.artifact_withDefaults c.settings g
  cases hartifact : c.givenArtifact g with
  | some artifact =>
    rw [hartifact] at hgiven
    simp [artifactOf, hgiven]
  | none =>
    rw [hartifact] at hgiven
    obtain ⟨units, ⟨hv, b, hplan⟩, hbuilds⟩ := hstored
    have hplace : Composition.withDefaults c.settings g ∈ o.composition.composition.groups := by
      rw [(Composition.groups_of_validate hv).2]
      exact List.mem_map_of_mem hg
    obtain ⟨r, hr⟩ := exists_result hv hplan hbuilds hplace hgiven
    have hmem : r ∈ builds := (List.mem_filter.1 (hr ▸ List.mem_singleton_self r)).1
    rw [artifactOf_of_filter hgiven hr]
    simp [hbuilt r hmem]

/-- **Every group is presented to the local runner.** -/
theorem presented (hstored : Call.Stored e c o builds) (hbuilt : ∀ r ∈ builds, r.artifact ≠ "")
    (hrunner : o.runner = Local.runner d) (h : o.input e runId builds = .ok input) :
    List.Forall₂ (Local.Presented c) c.groups input.groups := by
  obtain ⟨-, -, hgroups⟩ := input_eq_ok h
  have hkept := (Composition.groups_of_validate hstored.choose_spec.1.1).2
  have hplace : input.groups =
      (c.groups.map (Composition.withDefaults c.settings)).mapIdx (o.groupInput e builds) := by
    rw [hgroups, hkept]
  refine List.forall₂_iff_get.2 ⟨by simp [hplace], fun i hi hi' => ?_⟩
  have hmem : c.groups[i] ∈ c.groups := List.getElem_mem hi
  have haccepts := accepts_of_input h (g := Composition.withDefaults c.settings c.groups[i])
    (hkept ▸ List.mem_map_of_mem hmem)
  rw [hrunner] at haccepts
  simp only [hplace, List.get_eq_getElem, List.getElem_mapIdx, List.getElem_map]
  refine ⟨rfl, artifactOf_eq_empty hstored hbuilt hmem, ?_⟩
  simp only [Local.runner] at haccepts
  cases hconfig : Local.runnerConfig (.object (o.groupConfig e
      (Composition.withDefaults c.settings c.groups[i]))) with
  | ok config => exact ⟨config, hconfig⟩
  | error error => rw [hconfig] at haccepts; cases haccepts

end RunOrder

namespace Local

variable {c : Composition}

/-- A group that is presented has a fault exactly if it is given an empty artifact. -/
theorem groupFault?_of_presented {g : Group} {x : RunGroup} (h : Presented c g x) :
    groupFault? x = if c.givenArtifact g = some "" then
      some (.invalidInput ("group " ++ g.id ++ " has no artifact")) else none := by
  obtain ⟨config, hconfig⟩ := h.config
  unfold groupFault?
  by_cases hempty : x.artifact = ""
  · simp [hempty, h.artifact.1 hempty, h.id]
  · simp [hempty, mt h.artifact.2 hempty, hconfig]

/-- **The fault of an input is what there is to complain of** in the composition. -/
theorem inputFault?_of_presented {input : RunInput} (hne : c.groups ≠ [])
    (h : List.Forall₂ (Presented c) c.groups input.groups) :
    inputFault? input = c.complaint?.map .invalidInput := by
  have hsome : input.groups.isEmpty = false := by
    rw [List.isEmpty_eq_false_iff, ← List.length_pos_iff, ← h.length_eq, List.length_pos_iff]
    exact hne
  have hfind : ∀ {gs xs}, List.Forall₂ (Presented c) gs xs →
      xs.findSome? groupFault? = (gs.find? fun g => c.givenArtifact g = some "").map fun g =>
        .invalidInput ("group " ++ g.id ++ " has no artifact") := by
    intro gs xs hall
    induction hall with
    | nil => rfl
    | cons hpresented _ ih =>
      rw [List.findSome?_cons, groupFault?_of_presented hpresented, List.find?_cons, ih]
      split <;> simp_all
  rw [inputFault?, hsome, Composition.complaint?, Option.map_map, if_neg Bool.false_ne_true,
    hfind h]
  rfl

end Local

namespace Session

variable {e : Engine} {s : Session} {is : List Input} {deeds : List Deed} {es : List Entry}
  {k : Nat} {d : Directories} {comp : Composition} {o : CallOptions}

/-- What a session hears of its builder and its runner is what the local backends do,
whatever the files are when they do it. -/
structure LocallyBacked (d : Directories) (is : List Input) (deeds : List Deed) : Prop where
  builds : ∀ k unit result b input, .call k (.finish unit (.returned result)) ∈ is →
    ⟨k, .build b unit input⟩ ∈ deeds → ∃ t canceled, result = Local.build t canceled input
  runs : ∀ k result runner input, .call k (.returned result) ∈ is →
    ⟨k, .run runner input⟩ ∈ deeds →
      ∃ launcher canceled t, result = (Local.run launcher d canceled input t).1.result

/-- Nothing empty is entered in the cache. -/
theorem Enters.artifact_ne_empty (h : Enters e is s deeds es) (hlocal : LocallyBacked d is deeds) :
    ∀ x ∈ es, x.result.artifact ≠ "" := by
  intro x hx
  obtain ⟨b, input, out, hmade, hresult⟩ := h.made hx
  obtain ⟨t, canceled, hbuild⟩ := hlocal.builds _ _ _ b input hmade.returned hmade.asked
  rw [hresult]
  exact Local.artifact_of_build hbuild.symm

/-- What the local runner is handed is presented to it. -/
theorem Follows.presented (h : Follows e is s deeds) (he : e.registry = Local.registry d)
    (hlocal : LocallyBacked d is deeds) (hr : (requests is)[k]? = some (.orchestrate comp o))
    {runner : Selector} {input : RunInput} (hrun : ⟨k, .run runner input⟩ ∈ deeds) :
    runner = Local.runnerId ∧ comp.groups ≠ [] ∧
      List.Forall₂ (Local.Presented comp) comp.groups input.groups := by
  obtain ⟨es, henters⟩ := h.enters
  obtain ⟨c, hc⟩ : ∃ c, s.calls[k]? = some c := ⟨_, List.getElem?_eq_getElem (h.lt_of_mem hrun)⟩
  have hhands : Call.HandsAll e comp (fun r => r.artifact ≠ "") (deedsOf k deeds) :=
    (henters.provided (fun _ _ => id) (henters.artifact_ne_empty hlocal) hr hc).2
  obtain ⟨order, runId, builds, hands⟩ := hhands runner input (mem_deedsOf.2 hrun)
  obtain ⟨selector, hregistered⟩ := hands.runner
  rw [he] at hregistered
  have hlocally := Local.runner_of_registry hregistered
  refine ⟨?_, (Composition.groups_of_validate hands.stored.choose_spec.1.1).1,
    RunOrder.presented hands.stored hands.results hlocally hands.input⟩
  rw [hands.selector, hlocally]
  rfl

/-- **The local runner refuses what is given and empty, and nothing else.** In every session
of an engine with the local backends, an orchestration that asks its runner to start hands
it groups, each of them with a configuration that is read, and with an artifact unless the
composition gives it an empty one; and the runner complains about the input exactly if there
is such a group, about the first. So an orchestration ends with a complaint about its input
exactly if its composition has such a group and its runner has returned. -/
theorem Follows.refused (h : Follows e is s deeds) (he : e.registry = Local.registry d)
    (hlocal : LocallyBacked d is deeds) (hr : (requests is)[k]? = some (.orchestrate comp o)) :
    (∀ runner input, ⟨k, .run runner input⟩ ∈ deeds →
      runner = Local.runnerId ∧ input.groups ≠ [] ∧
        List.Forall₂ (Local.Presented comp) comp.groups input.groups ∧
        ∀ launcher canceled t reason,
          (Local.run launcher d canceled input t).1.result = .error (.invalidInput reason) ↔
            comp.complaint? = some reason) ∧
      ∀ c reason, s.calls[k]? = some c →
        (c.phase = .finished (.error (.run (.invalidInput reason))) ↔
          comp.complaint? = some reason ∧ ∃ result, .call k (.returned result) ∈ is) := by
  have refuses : ∀ runner input, ⟨k, .run runner input⟩ ∈ deeds →
      ∀ launcher canceled t reason,
        (Local.run launcher d canceled input t).1.result = .error (.invalidInput reason) ↔
          comp.complaint? = some reason := by
    intro runner input hrun launcher canceled t reason
    obtain ⟨-, hgroups, hpresented⟩ := h.presented he hlocal hr hrun
    rw [Local.result_run_iff, Local.inputFault?_of_presented hgroups hpresented]
    simp
  -- what a runner has returned it has returned for an input that it was handed
  have returned : ∀ c result reason, s.calls[k]? = some c → .call k (.returned result) ∈ is →
      (result = .error (.invalidInput reason) ↔ comp.complaint? = some reason) := by
    intro c result reason hc hin
    obtain ⟨runner, input, hrun⟩ := (h.of_returned hr hc hin).1
    obtain ⟨launcher, canceled, t, rfl⟩ := hlocal.runs _ _ _ _ hin hrun
    exact refuses runner input hrun launcher canceled t reason
  refine ⟨fun runner input hrun => ?_, fun c reason hc => ⟨fun hphase => ?_, ?_⟩⟩
  · obtain ⟨hrunner, hgroups, hpresented⟩ := h.presented he hlocal hr hrun
    refine ⟨hrunner, fun hnil => ?_, hpresented, refuses runner input hrun⟩
    rw [hnil] at hpresented
    exact hgroups (List.forall₂_nil_right_iff.1 hpresented)
  · have hin := h.returned_of_runError hr hc (CallPhase.runError?_eq_some.2 hphase)
    exact ⟨(returned c _ reason hc hin).1 rfl, _, hin⟩
  · rintro ⟨hcomplaint, result, hin⟩
    have hresult := (returned c result reason hc hin).2 hcomplaint
    exact CallPhase.runError?_eq_some.1 ((h.of_returned hr hc hin).2 _ hresult (by simp))

/-! ## An artifact that is given and empty

Two groups are to run. The first is built; the second is given an empty artifact. -/

namespace Hollow

def directories : Directories := ⟨"/home"⟩

def engine : Engine := ⟨Local.registry directories, .standard, directories⟩

def group (id : String) (artifact : Option String) : Group :=
  ⟨id, ⟨1, .zero⟩, .none, [], [], ⟨artifact, []⟩⟩

def composition : Composition where
  metadata := ⟨"", ""⟩
  settings := ⟨"p", "case", 0, "exec:bin", "local:exec", [], none, [], none⟩
  groups := [group "p" none, group "q" (some "")]

/-- The sources of the plan are in the root, and the health is not checked. -/
def options : CallOptions := ⟨some "/", some .disabled, false⟩

def files : FileTree := ⟨[("p", .file [] 0o755)]⟩

def output : BuildOutput := ⟨"/p", []⟩

def fault : RunError := .invalidInput "group q has no artifact"

def begun : Input := .start "run" false (.orchestrate composition options)

def inputs : List Input :=
  [begun, .call 0 .proceed, .call 0 .proceed, .call 0 (.finish 0 (.returned (.ok output))),
    .call 0 (.join 0), .call 0 .proceed, .call 0 (.returned (.error fault))]

def valid : ValidComposition :=
  ⟨composition.complete [1, 1], Local.builderId, some Local.runnerId, [1, 1]⟩

def order : RunOrder := ⟨valid, Local.runner directories, .disabled⟩

/-- The unit of the first group. -/
def unit (key fp : String) : BuildUnit := ⟨key, ["p"], [], [], [], fp⟩

/-- What the builder is asked. -/
def buildInput (fp : String) : BuildInput := ⟨0, "p", "/", ["p"], [], [], .object [], fp⟩

/-- What the runner is asked. -/
def runInput : RunInput where
  runId := "run"
  plan := "p"
  case := "case"
  total := 2
  groups := [⟨"p", 1, "/p", [], .object []⟩, ⟨"q", 1, "", [], .object []⟩]
  config := .object []

/-- The stage with its unit in some progress. -/
def stage (u : BuildUnit) (p : UnitProgress) : BuildStage :=
  ⟨Local.builderId, "p", "/", [⟨u, p⟩], false, none⟩

/-- The session with its call in a phase. -/
def session (l : Ledger) (phase : CallPhase) : Session :=
  ⟨l, (ofEngine engine).checkups, [Call.opened "run" false false phase]⟩

/-- All that is done. -/
def history (fp : String) : List Deed :=
  ([.event (.buildStarted 0 Local.builderId ["p"]), .build Local.builderId 0 (buildInput fp),
    .event (.buildFinished 0 true), .event (.runStarted "run" "p" "case" Local.runnerId 2),
    .run Local.runnerId runInput, .terminate Local.runnerId,
    Call.failureEvent (.run fault)] : List Effect).map (⟨0, ·⟩)

theorem plans : ∃ key fp, Call.planned engine false valid Local.builder options =
    .ok (stage (unit key fp) .planned) :=
  ⟨_, _, rfl⟩

theorem begins : ∃ key fp, Call.beginRun engine false composition options =
    .ok (.building (some order) (stage (unit key fp) .planned)) := by
  obtain ⟨key, fp, hplanned⟩ := plans
  have hvalid : composition.validate = .ok valid := rfl
  have hcomponents : Call.components engine valid =
      .ok (Local.builder, Local.runner directories) := rfl
  refine ⟨key, fp, ?_⟩
  simp only [Call.beginRun, hvalid, Except.mapError, bind, Except.bind, hcomponents, hplanned]
  rfl

/-- The call in the end. -/
def call : Call := Call.opened "run" false false (.finished (.error (.run fault)))

theorem follows : ∃ fp s, Follows engine inputs s (history fp) ∧ s.calls[0]? = some call := by
  obtain ⟨key, fp, hbegin⟩ := begins
  have hstart : (ofEngine engine).step engine begun =
      some (session .empty (.building (some order) (stage (unit key fp) .planned)), []) := by
    simp only [begun, step, start, Call.start, hbegin]
    rfl
  have h₀ : Follows engine [begun]
      (session .empty (.building (some order) (stage (unit key fp) .planned))) [] :=
    .next .start hstart
  have h₁ : Follows engine _
      (session .empty (.building (some order) (stage (unit key fp) .missing))) _ :=
    h₀.next (i := .call 0 .proceed) rfl
  have h₂ := h₁.next (i := .call 0 .proceed) rfl
  have h₃ := h₂.next (i := .call 0 (.finish 0 (.returned (.ok output)))) rfl
  have h₄ := h₃.next (i := .call 0 (.join 0)) rfl
  have h₅ := h₄.next (i := .call 0 .proceed) rfl
  exact ⟨fp, _, h₅.next (i := .call 0 (.returned (.error fault))) rfl, rfl⟩

theorem finds : files.find "/p" = .ok (["p"], .file [] 0o755) := by
  have hparts : Path.parts "/p" = ["p"] := by
    simp +decide [Path.parts, String.splitOn, String.splitOnAux]
  simp only [FileTree.find, FileTree.locate, FileTree.partsOf, hparts]
  rfl

/-- The executable is found, and is the artifact. -/
theorem builds (fp : String) : Local.build files false (buildInput fp) = .ok output := by
  have hconfig : Local.builderConfig (buildInput fp).config = .ok ⟨none⟩ := rfl
  have hpath : Local.executablePath (buildInput fp) ⟨none⟩ = "/p" := by
    show Path.join "/" "p" = "/p"
    decide
  have hfault : Local.executableFault? files "/p" = none := by
    rw [Local.executableFault?, FileTree.metadata, finds]
    rfl
  have hcanonical : files.canonical "/p" = .ok "/p" := by
    rw [FileTree.canonical, finds]
    rfl
  simp only [Local.build, hconfig, hpath, hfault, hcanonical]
  rfl

theorem locallyBacked (fp : String) : LocallyBacked directories inputs (history fp) where
  builds := by
    intro k unit result b input hends hasks
    obtain ⟨rfl, rfl, rfl⟩ : k = 0 ∧ unit = 0 ∧ result = .ok output := by
      simpa [inputs, begun] using hends
    obtain ⟨-, rfl⟩ : b = Local.builderId ∧ input = buildInput fp := by
      simpa [history, Call.failureEvent] using hasks
    exact ⟨files, false, (builds fp).symm⟩
  runs := by
    intro k result runner input hreturns hruns
    obtain ⟨rfl, rfl⟩ : k = 0 ∧ result = .error fault := by
      simpa [inputs, begun] using hreturns
    obtain ⟨-, rfl⟩ : runner = Local.runnerId ∧ input = runInput := by
      simpa [history, Call.failureEvent] using hruns
    exact ⟨fun t _ => (.error .notFound, t), fun _ => false, files, rfl⟩

end Hollow

/-- The runner is handed what was built for the first group, and complains of the second. -/
theorem refused_of_hollow : ∃ (fp : String) (s : Session),
    Follows Hollow.engine Hollow.inputs s (Hollow.history fp) ∧
      LocallyBacked Hollow.directories Hollow.inputs (Hollow.history fp) ∧
      ⟨0, .run Local.runnerId Hollow.runInput⟩ ∈ Hollow.history fp ∧
      List.Forall₂ (Local.Presented Hollow.composition) Hollow.composition.groups
        Hollow.runInput.groups ∧
      s.calls[0]? = some Hollow.call ∧
      Hollow.composition.complaint? = some "group q has no artifact" := by
  obtain ⟨fp, s, hfollows, hcall⟩ := Hollow.follows
  have hrun : ⟨0, .run Local.runnerId Hollow.runInput⟩ ∈ Hollow.history fp := by
    simp [Hollow.history]
  obtain ⟨hasks, hends⟩ := hfollows.refused (k := 0) rfl (Hollow.locallyBacked fp) rfl
  obtain ⟨-, -, hpresented, -⟩ := hasks _ _ hrun
  obtain ⟨hcomplaint, -⟩ := (hends _ _ hcall).1 rfl
  exact ⟨fp, s, hfollows, Hollow.locallyBacked fp, hrun, hpresented, hcall, hcomplaint⟩

/-- **The runner is left something to refuse**: it is not so that with the local backends no
orchestration ends with a complaint about the input of its run, and that all groups which
the runner is handed have artifacts. -/
theorem not_all_accepted : ¬ ∀ (e : Engine) (d : Directories) (is : List Input) (s : Session)
    (deeds : List Deed), e.registry = Local.registry d → Follows e is s deeds →
      LocallyBacked d is deeds →
      (∀ (k : Nat) (c : Call) (reason : String), s.calls[k]? = some c →
        c.phase ≠ .finished (.error (.run (.invalidInput reason)))) ∧
      ∀ (k : Nat) (runner : Selector) (input : RunInput), ⟨k, .run runner input⟩ ∈ deeds →
        input.groups ≠ [] ∧ ∀ x ∈ input.groups, x.artifact ≠ "" ∧
          ∃ config, Local.runnerConfig x.config = .ok config := by
  intro h
  obtain ⟨fp, s, hfollows, hcall⟩ := Hollow.follows
  obtain ⟨hends, -⟩ := h _ _ _ _ _ rfl hfollows (Hollow.locallyBacked fp)
  exact hends 0 Hollow.call "group q has no artifact" hcall rfl

end Session

end Conductor
