import Conductor.Local.Runner
import Conductor.Proofs.Files.Making
import Conductor.Proofs.Table
import Mathlib.Data.List.DropRight
/-!
# Local backends — the processes of each run

Whatever the runner is asked, and whenever processes exit in between, is made of four moves: a
process is started for a run, a process exits, the runner looks which have exited, and a run
is terminated (`Step`, `Follows.steps`). What the runner keeps for a run can be told from the
moves so far (`Tells`): the processes started since the run was last terminated, without those
that had exited when the runner last looked. This holds after each move (`Tells.step`), so it
always does.

So the runner counts what is left of a run, and to terminate a run is to kill what is kept for
this run and to change nothing for any other (`Follows.keeps_runs_apart`).
-/

namespace Conductor

namespace Local

/-- What can happen to the processes of the runner. -/
inductive Move
  /-- A process is started for a run. -/
  | start (runId : String) (process : Nat)
  | exit (process : Nat)
  /-- The runner looks which processes have exited. -/
  | look
  | terminate (runId : String)
  deriving DecidableEq

namespace Children

/-- What a move makes of the processes that are kept. -/
inductive Step (c : Children) : Move → Children → Prop
  | start (runId instanceId : String) : Step c (.start runId c.next) (c.start runId instanceId)
  | exit {process : Nat} (hstarted : process < c.next) : Step c (.exit process) (c.exit process)
  | look : Step c .look c.reap
  | terminate (runId : String) : Step c (.terminate runId) (c.terminate runId).2

/-- What moves make of them one after the other. -/
inductive Steps (c : Children) : List Move → Children → Prop
  | nil : Steps c [] c
  | snoc {ms : List Move} {m : Move} {c' c'' : Children} (steps : Steps c ms c')
    (step : Step c' m c'') : Steps c (ms ++ [m]) c''

/-- The moves of launches; `next` is the number of the next process. -/
def launchMoves (runId : String) : (next : Nat) → List Launch → List Move
  | _, [] => []
  | next, l :: ls =>
    match l.result with
    | .ok p =>
      (if p.exited then [.start runId next, .exit next] else [.start runId next]) ++
        launchMoves runId (next + 1) ls
    | .error _ => launchMoves runId next ls

/-- The moves of a run. The runner looks first, unless the input has a fault. -/
def runMoves (c : Children) (input : RunInput) (r : Run) : List Move :=
  match inputFault? input with
  | some _ => []
  | none => .look :: launchMoves input.runId c.next r.launches

/-- The runner is used, and processes exit in between. -/
inductive Follows (c : Children) : List Move → Children → Prop
  | nil : Follows c [] c
  | run {ms : List Move} {c' : Children} (before : Follows c ms c') (launcher : Launcher)
    (d : Directories) (canceled : Nat → Bool) (input : RunInput) (t : FileTree) :
    Follows c (ms ++ runMoves c' input (Local.run launcher d canceled input t).1)
      (c'.afterRun input (Local.run launcher d canceled input t).1)
  | exit {ms : List Move} {c' : Children} {process : Nat} (before : Follows c ms c')
    (hstarted : process < c'.next) : Follows c (ms ++ [.exit process]) (c'.exit process)
  | tracked {ms : List Move} {c' : Children} (before : Follows c ms c') (runId : String) :
    Follows c (ms ++ [.look]) (c'.tracked runId).2
  | terminate {ms : List Move} {c' : Children} (before : Follows c ms c') (runId : String) :
    Follows c (ms ++ [.terminate runId]) (c'.terminate runId).2

variable {c c' c'' : Children} {m : Move} {ms ms' : List Move} {r r' : String} {p : Nat}

/-! ## Uses of the runner as moves -/

theorem Steps.trans (h : Steps c ms c') (h' : Steps c' ms' c'') : Steps c (ms ++ ms') c'' := by
  induction h' with
  | nil => rwa [List.append_nil]
  | snoc _ step ih =>
    rw [← List.append_assoc]
    exact .snoc ih step

theorem Step.steps (h : Step c m c') : Steps c [m] c' := .snoc .nil h

/-- What launches make of the processes is made of the moves of the launches. -/
theorem steps_launches (ls : List Launch) :
    Steps c (launchMoves r c.next ls) (ls.foldl (fun c l =>
      match l.result with
      | .ok p =>
        let started := c.start r l.slot.id
        if p.exited then started.exit c.next else started
      | .error _ => c) c) := by
  induction ls generalizing c with
  | nil => exact .nil
  | cons l ls ih =>
    rw [List.foldl_cons, launchMoves]
    cases l.result with
    | error e => exact ih
    | ok p =>
      dsimp only
      have hstart : Steps c [.start r c.next] (c.start r l.slot.id) := (Step.start r _).steps
      split
      · exact (hstart.trans (Step.exit (Nat.lt_succ_self c.next)).steps).trans ih
      · exact hstart.trans ih

theorem steps_afterRun (input : RunInput) (x : Run) :
    Steps c (runMoves c input x) (c.afterRun input x) := by
  unfold runMoves afterRun
  cases inputFault? input with
  | some e => exact .nil
  | none => exact (Step.steps .look).trans (steps_launches (c := c.reap) x.launches)

/-- **Every use of the runner is made of moves.** -/
theorem Follows.steps (h : Follows c ms c') : Steps c ms c' := by
  induction h with
  | nil => exact .nil
  | run _ launcher d canceled input t ih => exact ih.trans (steps_afterRun _ _)
  | exit _ hstarted ih => exact ih.snoc (.exit hstarted)
  | tracked _ runId ih => exact ih.snoc .look
  | terminate _ runId ih => exact ih.snoc (.terminate runId)

/-! ## What the moves tell -/

/-- The process that a move starts for a run. -/
def startedFor (r : String) : Move → Option Nat
  | .start r' p => if r' = r then some p else none
  | _ => none

/-- The processes that have been started for a run since it was last terminated. -/
def startedSince (r : String) (ms : List Move) : List Nat :=
  (ms.rtakeWhile (· ≠ .terminate r)).filterMap (startedFor r)

/-- Those of them that have not exited. -/
def left (r : String) (ms : List Move) : List Nat :=
  (startedSince r ms).filter fun p => .exit p ∉ ms

/-- The moves up to the last look. -/
def untilLook (ms : List Move) : List Move := ms.rdropWhile (· ≠ .look)

/-- The processes started since then that had not exited when the runner last looked. -/
def recorded (r : String) (ms : List Move) : List Nat :=
  (startedSince r ms).filter fun p => .exit p ∉ untilLook ms

theorem untilLook_concat :
    untilLook (ms ++ [m]) = if m = .look then ms ++ [m] else untilLook ms := by
  rw [untilLook, List.rdropWhile_concat]
  by_cases hm : m = .look
  · simp [hm]
  · simp [hm, untilLook]

/-- What has exited before the last look has exited. -/
theorem exit_mem_of_untilLook (h : .exit p ∈ untilLook ms) : .exit p ∈ ms :=
  (List.rdropWhile_prefix _ _).mem h

theorem startedSince_concat : startedSince r (ms ++ [m]) =
    if m = .terminate r then [] else startedSince r ms ++ (startedFor r m).toList := by
  rw [startedSince, List.rtakeWhile_concat]
  by_cases hm : m = .terminate r
  · simp [hm]
  · cases hfor : startedFor r m <;> simp [hm, hfor, startedSince]

/-- A move that is no look tells nothing new about what has exited. -/
theorem recorded_concat (hm : m ≠ .look) : recorded r (ms ++ [m]) =
    if m = .terminate r then [] else recorded r ms ++
      (startedFor r m).toList.filter fun p => .exit p ∉ untilLook ms := by
  rw [recorded, untilLook_concat, if_neg hm, startedSince_concat]
  split
  · rfl
  · rw [List.filter_append, recorded]

/-- When the runner has looked, it keeps what is left. -/
theorem recorded_look : recorded r (ms ++ [.look]) = left r ms := by
  rw [recorded, left, untilLook_concat, if_pos rfl, startedSince_concat]
  simp [startedFor]

/-- What is left is left of what is kept. -/
theorem filter_recorded : (recorded r ms).filter (fun p => .exit p ∉ ms) = left r ms := by
  rw [recorded, left, List.filter_filter]
  refine List.filter_congr fun p _ => ?_
  by_cases hexit : .exit p ∈ ms
  · simp [hexit]
  · simp [hexit, mt exit_mem_of_untilLook hexit]

theorem start_mem_of_recorded (h : p ∈ recorded r ms) : .start r p ∈ ms := by
  obtain ⟨m, hm, hfor⟩ := List.mem_filterMap.1 (List.mem_of_mem_filter h)
  have hmem : m ∈ ms := (List.rtakeWhile_suffix _ _).mem hm
  cases m with
  | start r' q =>
    rw [startedFor] at hfor
    split at hfor
    · rename_i heq
      cases hfor
      rwa [← heq]
    · cases hfor
  | exit q => cases hfor
  | look => cases hfor
  | terminate r' => cases hfor

/-- Without a start nothing is left of a run that has been terminated. -/
theorem left_of_terminated (h : ∀ p, .start r p ∉ ms') :
    left r (ms ++ [.terminate r] ++ ms') = [] := by
  have hsince : startedSince r (ms ++ [.terminate r] ++ ms') = [] := by
    induction ms' using List.reverseRecOn with
    | nil => rw [List.append_nil, startedSince_concat, if_pos rfl]
    | append_singleton ms' m ih =>
      have hfor : startedFor r m = none := by
        cases m with
        | start r' q =>
          have hne : r' ≠ r := fun heq => h q (by simp [heq])
          exact if_neg hne
        | exit q => rfl
        | look => rfl
        | terminate r' => rfl
      rw [← List.append_assoc, startedSince_concat, hfor,
        ih fun p hmem => h p (List.mem_append_left _ hmem)]
      simp
  rw [left, hsince, List.filter_nil]

/-! ## What is kept for a run -/

theorem ofRun_start (instanceId : String) : (c.start r instanceId).ofRun r' =
    c.ofRun r' ++ if r' = r then [⟨c.next, instanceId, false⟩] else [] := by
  rw [ofRun, start, Table.get?_insert]
  by_cases hr : r' = r
  · simp [hr]
  · simp [hr, ofRun]

theorem ofRun_exit : (c.exit p).ofRun r = (c.ofRun r).map fun k =>
    if k.process = p then { k with exited := true } else k := by
  rw [ofRun, exit, Table.get?_map, ofRun]
  cases c.byRun.get? r <;> rfl

/-- After a look a run is kept if one of its processes has not exited. -/
theorem get?_reap (h : c.byRun.Sorted) : c.reap.byRun.get? r =
    ((c.byRun.get? r).map fun ks => ks.filter fun k => !k.exited).filter fun ks => !ks.isEmpty := by
  rw [reap, alive, (h.map _).get?_filter, Table.get?_map]

theorem ofRun_reap (h : c.byRun.Sorted) :
    c.reap.ofRun r = (c.ofRun r).filter fun k => !k.exited := by
  rw [ofRun, get?_reap h, ofRun]
  cases c.byRun.get? r with
  | none => rfl
  | some ks =>
    cases hleft : ks.filter fun k => !k.exited <;> simp [hleft, Option.filter]

theorem get?_reap_eq_none (h : c.byRun.Sorted) :
    c.reap.byRun.get? r = none ↔ c.reap.ofRun r = [] := by
  rw [ofRun, get?_reap h]
  cases c.byRun.get? r with
  | none => simp
  | some ks =>
    cases hleft : ks.filter fun k => !k.exited <;> simp [hleft, Option.filter]

/-- A run that is terminated is not kept, and any other as before. -/
theorem get?_terminate (h : c.byRun.Sorted) :
    (c.terminate r).2.byRun.get? r' = if r' = r then none else c.byRun.get? r' :=
  h.get?_erase

theorem ofRun_terminate (h : c.byRun.Sorted) :
    (c.terminate r).2.ofRun r' = if r' = r then [] else c.ofRun r' := by
  rw [ofRun, get?_terminate h, ofRun]
  split <;> rfl

/-! ## The invariant -/

/-- Numbers of processes are given out once. -/
structure Numbered (next : Nat) (ms : List Move) : Prop where
  fresh : ∀ p, (.exit p ∈ ms ∨ ∃ r, .start r p ∈ ms) → p < next
  /-- A process is of one run. -/
  owned : ∀ p r r', .start r p ∈ ms → .start r' p ∈ ms → r = r'

/-- The moves tell what is kept for each run. -/
structure Tells (c : Children) (ms : List Move) : Prop where
  sorted : c.byRun.Sorted
  kept : ∀ r, (c.ofRun r).map (fun k => (k.process, k.exited)) =
    (recorded r ms).map fun p => (p, decide (.exit p ∈ ms))
  numbered : Numbered c.next ms

theorem Numbered.start {n : Nat} (h : Numbered n ms) : Numbered (n + 1) (ms ++ [.start r n]) where
  fresh p hp := by
    simp only [List.mem_append, List.mem_singleton, reduceCtorEq, or_false, Move.start.injEq]
      at hp
    rcases hp with hp | ⟨r', hp | ⟨-, rfl⟩⟩
    · exact (h.fresh p (.inl hp)).trans n.lt_succ_self
    · exact (h.fresh p (.inr ⟨r', hp⟩)).trans n.lt_succ_self
    · exact p.lt_succ_self
  owned p r₁ r₂ h₁ h₂ := by
    have hnew : ∀ r', .start r' n ∉ ms :=
      fun r' hmem => lt_irrefl _ (h.fresh _ (.inr ⟨r', hmem⟩))
    simp only [List.mem_append, List.mem_singleton, Move.start.injEq] at h₁ h₂
    rcases h₁ with h₁ | ⟨rfl, rfl⟩ <;> rcases h₂ with h₂ | ⟨rfl, hp⟩
    · exact h.owned p r₁ r₂ h₁ h₂
    · exact absurd (hp ▸ h₁) (hnew r₁)
    · exact absurd h₂ (hnew r₂)
    · rfl

/-- Other moves bring in no new number. -/
theorem Numbered.concat {n : Nat} (h : Numbered n ms) (hstart : ∀ r p, m ≠ .start r p)
    (hexit : ∀ p, m = .exit p → p < n) : Numbered n (ms ++ [m]) := by
  have hmem : ∀ r p, .start r p ∈ ms ++ [m] ↔ .start r p ∈ ms := fun r p => by
    simp [Ne.symm (hstart r p)]
  refine ⟨fun p hp => ?_, fun p r r' h₁ h₂ => ?_⟩
  · simp only [hmem, List.mem_append, List.mem_singleton] at hp
    rcases hp with (hp | hp) | hp
    · exact h.fresh p (.inl hp)
    · exact hexit p hp.symm
    · exact h.fresh p (.inr hp)
  · rw [hmem] at h₁ h₂
    exact h.owned p r r' h₁ h₂

theorem Tells.start (h : Tells c ms) (instanceId : String) :
    Tells (c.start r instanceId) (ms ++ [.start r c.next]) where
  sorted := h.sorted.insert
  kept r' := by
    have hexit : .exit c.next ∉ ms := fun hmem => lt_irrefl _ (h.numbered.fresh _ (.inl hmem))
    have hbefore : .exit c.next ∉ untilLook ms := mt exit_mem_of_untilLook hexit
    rw [ofRun_start, List.map_append, h.kept, recorded_concat (by simp)]
    by_cases hr : r' = r
    · simp [hr, startedFor, hexit, hbefore]
    · simp [hr, startedFor, Ne.symm hr]
  numbered := h.numbered.start

theorem Tells.exit (h : Tells c ms) (hstarted : p < c.next) :
    Tells (c.exit p) (ms ++ [.exit p]) where
  sorted := h.sorted.map _
  kept r := by
    have hmark : ∀ k : Child, (fun k : Child => (k.process, k.exited))
        (if k.process = p then { k with exited := true } else k) =
          (k.process, k.exited || decide (k.process = p)) := by
      intro k
      by_cases hk : k.process = p <;> simp [hk]
    have hkept := congrArg (List.map fun x : Nat × Bool => (x.1, x.2 || decide (x.1 = p)))
      (h.kept r)
    rw [List.map_map, List.map_map] at hkept
    rw [ofRun_exit, recorded_concat (by simp), List.map_map]
    simpa [startedFor, Function.comp_def, hmark] using hkept
  numbered := h.numbered.concat (by simp) (by simp [hstarted])

theorem Tells.look (h : Tells c ms) : Tells c.reap (ms ++ [.look]) where
  sorted := (h.sorted.map _).filter _
  kept r := by
    have hkept := congrArg (List.filter fun x : Nat × Bool => !x.2) (h.kept r)
    rw [List.filter_map, List.filter_map] at hkept
    rw [ofRun_reap h.sorted, recorded_look, ← filter_recorded]
    simpa [Function.comp_def] using hkept
  numbered := h.numbered.concat (by simp) (by simp)

theorem Tells.terminate (h : Tells c ms) :
    Tells (c.terminate r).2 (ms ++ [.terminate r]) where
  sorted := h.sorted.filter _
  kept r' := by
    rw [ofRun_terminate h.sorted, recorded_concat (by simp)]
    by_cases hr : r' = r
    · simp [hr]
    · simpa [hr, Ne.symm hr, startedFor] using h.kept r'
  numbered := h.numbered.concat (by simp) (by simp)

/-- **A move tells what it makes of the processes.** -/
theorem Tells.step (h : Tells c ms) (step : Step c m c') : Tells c' (ms ++ [m]) := by
  cases step with
  | start r instanceId => exact h.start instanceId
  | exit hstarted => exact h.exit hstarted
  | look => exact h.look
  | terminate r => exact h.terminate

theorem Steps.tells (h : Steps .empty ms c) : Tells c ms := by
  induction h with
  | nil => exact ⟨.nil, fun _ => rfl, by simp, by simp⟩
  | snoc _ step ih => exact ih.step step

/-! ## Runs kept apart -/

theorem Tells.processes (h : Tells c ms) : (c.ofRun r).map Child.process = recorded r ms := by
  have hkept := congrArg (List.map Prod.fst) (h.kept r)
  rw [List.map_map, List.map_map] at hkept
  simpa [Function.comp_def] using hkept

/-- A look keeps what is left of a run. -/
theorem Tells.processes_look (h : Tells c ms) :
    (c.reap.ofRun r).map Child.process = left r ms :=
  h.look.processes.trans recorded_look

/-- **The runner keeps runs apart.** Whatever it is asked, and whenever processes exit: it
counts the processes that were started for a run since that was last terminated and have not
exited. To terminate a run is to kill the processes kept for it, which were started for this
run and for no other; it leaves what is kept for any other run as it is, and until another
process is started for the run it counts none. And when the runner has looked, exactly the
runs are kept of which something is left. -/
theorem Follows.keeps_runs_apart (h : Follows .empty ms c) (r : String) :
    (c.tracked r).1 = (left r ms).length ∧
    ((c.terminate r).1 = recorded r ms ∧
      ∀ p ∈ recorded r ms, ∀ r', .start r' p ∈ ms ↔ r' = r) ∧
    (∀ r' ≠ r, (c.terminate r).2.byRun.get? r' = c.byRun.get? r') ∧
    (∀ ms' c', Follows (c.terminate r).2 ms' c' → (∀ p, .start r p ∉ ms') →
      (c'.tracked r).1 = 0) ∧
    ∀ r', c.reap.byRun.get? r' = none ↔ left r' ms = [] := by
  have hcount : ∀ {ms c}, Tells c ms → (c.tracked r).1 = (left r ms).length := by
    intro ms c htells
    rw [← htells.processes_look, List.length_map]
    rfl
  have htells := h.steps.tells
  refine ⟨hcount htells, ⟨htells.processes, fun p hp r' => ⟨fun hstart => ?_, ?_⟩⟩,
    fun r' hr => ?_, fun ms' c' hafter hnone => ?_, fun r' => ?_⟩
  · exact htells.numbered.owned p r' r hstart (start_mem_of_recorded hp)
  · rintro rfl
    exact start_mem_of_recorded hp
  · rw [get?_terminate htells.sorted, if_neg hr]
  · have hsteps := (h.steps.snoc (.terminate r)).trans hafter.steps
    rw [hcount hsteps.tells, left_of_terminated hnone, List.length_nil]
  · rw [← htells.processes_look, List.map_eq_nil_iff]
    exact get?_reap_eq_none htells.sorted

namespace Silence

def group : RunGroup := ⟨"p", 1, "/bin/p", [], .object []⟩

/-- A run of one instance. -/
def input (runId : String) : RunInput := ⟨runId, "plan", "case", 1, [group], .object []⟩

/-- A process that says nothing. -/
def process (exited : Bool) : Process := ⟨⟨[], .closed⟩, ⟨[], .closed⟩, exited⟩

def launcher (exited : Bool) : Launcher := fun t _ => (.ok (process exited), t)

/-- There are directories for two runs. -/
def files : FileTree :=
  ⟨[("outputs", .directory [("t", .directory [("p", .directory [])]),
    ("u", .directory [("p", .directory [])])])]⟩

/-- The runs are those for which there are directories. -/
theorem createAll_files (h : r = "t" ∨ r = "u") :
    ∃ t, files.createAll ((Directories.mk "/").instanceOutputs r "p" 0) = (.ok (), t) := by
  have hmake : ∃ t, files.makeDirectory ((Directories.mk "/").instanceOutputs r "p" 0) = .ok t := by
    have hlocate : files.locate false (FileTree.trimSlashes
        ((Directories.mk "/").instanceOutputs r "p" 0)) =
          .ok (.missing ["outputs", r, "p"] "0") := by
      have hparts : FileTree.partsOf (FileTree.trimSlashes
          ((Directories.mk "/").instanceOutputs r "p" 0)) = ["outputs", r, "p", "0"] := by
        rw [FileTree.partsOf, Path.parts_eq]
        rcases h with rfl | rfl <;> decide
      rw [FileTree.locate, hparts]
      rcases h with rfl | rfl <;> rfl
    rw [FileTree.makeDirectory, hlocate]
    exact ⟨_, rfl⟩
  obtain ⟨t, hmake⟩ := hmake
  have hne : (Directories.mk "/").instanceOutputs r "p" 0 ≠ "" := by
    rcases h with rfl | rfl <;> decide
  exact ⟨t, FileTree.createAll_of_makeDirectory hne hmake⟩

theorem launches (h : r = "t" ∨ r = "u") (exited : Bool) :
    (Local.run (launcher exited) ⟨"/"⟩ (fun _ => false) (input r) files).1.launches =
      [⟨⟨group, 0⟩, .ok (process exited)⟩] := by
  obtain ⟨t, ht⟩ := createAll_files h
  have hstart : startInstance (launcher exited) ⟨"/"⟩ (input r) ⟨group, 0⟩ files =
      (.ok (process exited), t) := by
    unfold startInstance
    dsimp only [group, input]
    rw [ht]
    rfl
  have hfault : inputFault? (input r) = none := rfl
  have hslots : (input r).slots = [⟨group, 0⟩] := rfl
  rw [Local.run, hfault, hslots, launchAll, if_neg (by simp), hstart]
  rfl

/-- The process of a run exits at once or does not. -/
theorem follows (h : Follows c ms c') (hr : r = "t" ∨ r = "u") (exited : Bool) :
    Follows c (ms ++ .look :: .start r c'.next :: if exited then [.exit c'.next] else [])
      (if exited then (c'.reap.start r "p[000]").exit c'.next else c'.reap.start r "p[000]") := by
  have hrun := h.run (launcher exited) ⟨"/"⟩ (fun _ => false) (input r) files
  have hfault : inputFault? (input r) = none := rfl
  rw [runMoves, afterRun, hfault, launches hr] at hrun
  cases exited <;> exact hrun

end Silence

/-- One run is terminated while another goes on. Of its two processes one exited before the
runner looked, so the other is killed. -/
theorem keeps_runs_apart_silent : ∃ ms c, Follows .empty ms c ∧ (c.tracked "t").1 = 1 ∧
    (c.terminate "t").1 = [1] ∧ ((c.terminate "t").2.tracked "t").1 = 0 ∧
    (c.terminate "t").2.byRun.get? "u" = some [⟨2, "p[000]", false⟩] := by
  have hbegin : Follows .empty [] .empty := .nil
  have hexited := Silence.follows (r := "t") hbegin (.inl rfl) true
  have hagain := Silence.follows (r := "t") hexited (.inl rfl) false
  have hfollows := Silence.follows (r := "u") hagain (.inr rfl) false
  obtain ⟨htracked, ⟨hkilled, -⟩, hothers, hafter, -⟩ := hfollows.keeps_runs_apart "t"
  exact ⟨_, _, hfollows, htracked.trans rfl, hkilled.trans rfl, hafter _ _ .nil (by simp),
    (hothers "u" (by decide)).trans rfl⟩

end Children

end Local

end Conductor
