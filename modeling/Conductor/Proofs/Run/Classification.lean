import Conductor.Proofs.Log.Transcript
import Conductor.Proofs.Run.Bookkeeping
/-!
# Runs — what the collector makes of the instances

The consumers of a run take their steps in any order, and all write to one log and one
table. What each of them writes is settled when its instance is registered
(`Collector.Arrival`): the entries of a stream are those of its transcript, and the
verdict is that of standard output. So behind every course without a cancellation,
`Collector.Classified` holds: what has been written, together with what the consumers
still have to write, is what the instances make. Once no consumer is left, the log is a
shuffle of the entries of all streams, and the books do not depend on the order of the
steps (`Collector.Follows.classified`).
-/

namespace Conductor

/-- A list is a shuffle of parts: every item belongs to one of the parts, and the items of
a part are those of the part, in their order. -/
def Shuffle {κ α : Type} [DecidableEq κ] (parts : κ → List α) (xs : List α) : Prop :=
  ∃ ys : List (κ × α), ys.map Prod.snd = xs ∧
    ∀ key, (ys.filter (·.1 = key)).map Prod.snd = parts key

namespace Collector

/-- An instance as it is registered: it started, with its output streams, or it did not. -/
inductive Arrival
  | managed (id : String) (output errors : OctetStream)
  | refused (id reason : String)

namespace Arrival

def id : Arrival → String
  | .managed id _ _ => id
  | .refused id _ => id

/-- The verdict that the instance will have. -/
def verdict : Arrival → Verdict
  | .managed _ output _ => output.transcript.verdictFrom .running
  | .refused _ _ => .incomplete

/-- The entries that a stream of the instance makes in the log, at an index. -/
def entries (index : Nat) : Channel → Arrival → List LogEntry
  | .output, .managed id output _ => output.transcript.outputEntries index id .running
  | .errors, .managed id _ errors => errors.transcript.errorEntries index id
  | .output, .refused id reason => [⟨index, id, none, .incomplete, "failed to start: " ++ reason⟩]
  | .errors, .refused _ _ => []

end Arrival

/-- The instance that an action registers. -/
def Action.arrival? : Action → Option Arrival
  | .manage id output errors => some (.managed id output errors)
  | .failStart id reason => some (.refused id reason)
  | .read _ _ => none
  | .quit _ _ => none

/-- The instance that an event registers. -/
def Event.arrival? : Event → Option Arrival
  | .act a => a.arrival?
  | .cancel => none
  | .hangUp => none

/-- The instances registered in a course of events, in order. -/
def arrivals (es : List Event) : List Arrival := es.filterMap Event.arrival?

/-- A stream of the instance at an index. -/
abbrev StreamKey := Nat × Channel

/-- The entries of a stream. -/
def script (xs : List Arrival) (key : StreamKey) : List LogEntry :=
  match xs[key.1]? with
  | some x => x.entries key.1 key.2
  | none => []

/-- The number of instances that will have failed. -/
def failuresOf (xs : List Arrival) : Nat := xs.countP fun x => x.verdict.isFailure

/-- The outcome of a run that is not canceled. -/
def outcomeOf (xs : List Arrival) : RunOutcome :=
  if 0 < failuresOf xs then .failure (failuresOf xs) else .success

/-- The entries that a consumer has to make yet. -/
def restOf (k : Consumer) : List LogEntry :=
  match k.channel with
  | .errors => k.stream.transcript.errorEntries k.index k.instanceId
  | .output => k.stream.transcript.outputEntries k.index k.instanceId k.state

/-- The verdict that a consumer of standard output will settle on. -/
def dueOf (k : Consumer) : Verdict := k.stream.transcript.verdictFrom k.state

/-- The entries that have to be made yet for a stream. -/
def pending (c : Collector) (key : StreamKey) : List LogEntry :=
  ((c.consumer? key.1 key.2).map restOf).getD []

/-- What was written to the log for each stream, with what is to be written yet, is its
script. -/
def Written (xs : List Arrival) (log : List LogEntry) (rest : StreamKey → List LogEntry) : Prop :=
  ∃ ys : List (StreamKey × LogEntry), ys.map Prod.snd = log ∧
    ∀ key, (ys.filter (·.1 = key)).map Prod.snd ++ rest key = script xs key

/-- **The collector is on its way** to what the instances make. -/
structure Classified (xs : List Arrival) (c : Collector) : Prop where
  log : Written xs c.log.toList c.pending
  due : ∀ k ∈ c.consumers, k.channel = .output → ∃ x, xs[k.index]? = some x ∧ dueOf k = x.verdict
  /-- Where standard output is done, the verdict is there. -/
  settled : ∀ i x, xs[i]? = some x → c.consumer? i .output = none →
    c.verdicts.get? x.id = some x.verdict

variable {xs : List Arrival} {x : Arrival} {c c' : Collector} {k k' : Consumer} {i : Nat}
  {channel : Channel} {key : StreamKey} {log more : List LogEntry}
  {rest rest' : StreamKey → List LogEntry} {es : List Event} {canceled : Bool} {v : Verdict}

/-! ## Scripts -/

theorem script_append : script (xs ++ [x]) key =
    if key.1 = xs.length then x.entries key.1 key.2 else script xs key := by
  unfold script
  rcases Nat.lt_trichotomy key.1 xs.length with hlt | heq | hgt
  · rw [List.getElem?_append_left hlt, if_neg (Nat.ne_of_lt hlt)]
  · rw [heq, List.getElem?_concat_length, if_pos rfl]
  · rw [List.getElem?_eq_none (by simpa using Nat.succ_le_of_lt hgt), if_neg (Nat.ne_of_gt hgt),
      List.getElem?_eq_none (Nat.le_of_lt hgt)]

/-- There is nothing of an instance that is not registered. -/
theorem script_of_le (h : xs.length ≤ key.1) : script xs key = [] := by
  rw [script, List.getElem?_eq_none h]

namespace Written

theorem start : Written [] [] fun _ => [] := ⟨[], rfl, fun _ => rfl⟩

/-- Some entries of a stream are made. -/
theorem write (h : Written xs log rest) (key : StreamKey) (hkey : rest key = more ++ rest' key)
    (hothers : ∀ other, other ≠ key → rest' other = rest other) :
    Written xs (log ++ more) rest' := by
  obtain ⟨ys, rfl, hys⟩ := h
  refine ⟨ys ++ more.map (⟨key, ·⟩), by simp [Function.comp_def], fun other => ?_⟩
  rw [List.filter_append, List.map_append, ← hys other]
  by_cases hother : other = key
  · subst hother
    have hall : (more.map (fun e => (other, e))).filter (·.1 = other) = more.map (⟨other, ·⟩) :=
      List.filter_eq_self.2 (by simp)
    rw [hall, hkey, List.append_assoc]
    simp [Function.comp_def]
  · have hnone : (more.map (fun e => (key, e))).filter (·.1 = other) = [] :=
      List.filter_eq_nil_iff.2 (by simpa using fun _ _ => Ne.symm hother)
    rw [hnone, hothers other hother]
    simp

/-- An instance is registered, and its entries are to be made. -/
theorem register (h : Written xs log rest) (x : Arrival) : Written (xs ++ [x]) log
    fun key => if key.1 = xs.length then x.entries key.1 key.2 else rest key := by
  obtain ⟨ys, rfl, hys⟩ := h
  refine ⟨ys, rfl, fun key => ?_⟩
  dsimp only
  rw [script_append]
  split
  · rename_i hkey
    -- nothing was written for the stream before
    have hnone := hys key
    rw [script_of_le (Nat.le_of_eq hkey.symm)] at hnone
    rw [(List.append_eq_nil_iff.1 hnone).1, List.nil_append]
  · exact hys key

/-- Nothing is to be made of an instance that is not registered. -/
theorem rest_of_le (h : Written xs log rest) (hle : xs.length ≤ key.1) : rest key = [] := by
  obtain ⟨ys, -, hys⟩ := h
  have hnone := hys key
  rw [script_of_le hle] at hnone
  exact (List.append_eq_nil_iff.1 hnone).2

end Written

/-! ## Finding consumers -/

/-- A change of the consumers that keeps their streams keeps their places. -/
theorem consumer?_map {f : Consumer → Consumer}
    (hf : ∀ k, (f k).index = k.index ∧ (f k).channel = k.channel) :
    ({ c with consumers := c.consumers.map f }.consumer? i channel) =
      (c.consumer? i channel).map f := by
  simp only [consumer?, List.find?_map]
  congr 2
  funext k
  simp [hf k]

/-- The consumer of a stream that has read on is the new one. -/
theorem consumer?_update (h : c.consumer? k.index k.channel = some k') :
    (c.update k).consumer? i channel =
      if (i, channel) = (k.index, k.channel) then some k else c.consumer? i channel := by
  rw [update, consumer?_map]
  · split
    · rename_i heq
      cases heq
      obtain ⟨-, hi, hc⟩ := mem_of_consumer? h
      simp [h, hi, hc]
    · rename_i hne
      cases hfound : c.consumer? i channel with
      | none => rfl
      | some y =>
        obtain ⟨-, rfl, rfl⟩ := mem_of_consumer? hfound
        rw [Option.map_some, if_neg]
        simpa using hne
  · intro y
    split
    · rename_i heq
      rw [Bool.and_eq_true, decide_eq_true_eq, decide_eq_true_eq] at heq
      exact ⟨heq.1.symm, heq.2.symm⟩
    · exact ⟨rfl, rfl⟩

/-- A stream whose consumer is done has none. -/
theorem consumer?_drop : (c.drop k).consumer? i channel =
    if (i, channel) = (k.index, k.channel) then none else c.consumer? i channel := by
  simp only [consumer?, drop, without, List.find?_filter, Prod.mk.injEq]
  split
  · rename_i heq
    obtain ⟨rfl, rfl⟩ := heq
    exact List.find?_eq_none.2 (by grind)
  · congr 1
    funext y
    grind

/-- An instance that is registered has a consumer for each of its streams. -/
theorem consumer?_manage {id : String} {output errors : OctetStream} :
    (c.manage id output errors).consumer? i channel = (c.consumer? i channel).or
      (if i = c.count then
        some ⟨i, id, channel, .running, match channel with
          | .output => output
          | .errors => errors⟩
      else none) := by
  have happend : (c.manage id output errors).consumer? i channel =
      (c.consumer? i channel).or (List.find? (fun k => k.index = i && k.channel = channel)
        [⟨c.count, id, .errors, .running, errors⟩, ⟨c.count, id, .output, .running, output⟩]) :=
    List.find?_append
  rw [happend]
  congr 1
  split
  · rename_i heq
    subst heq
    cases channel <;> simp
  · rename_i hne
    simp [Ne.symm hne]

/-- Streams are closed where they are. -/
theorem closeStreams_eq : c.closeStreams =
    { c with consumers := c.consumers.map fun k => { k with stream := k.stream.hungUp } } := by
  have hclose : ∀ k : Consumer, (if k.stream.ending = .silent then
      { k with stream := { k.stream with ending := .closed } } else k) =
      { k with stream := k.stream.hungUp } := by
    rintro ⟨i, id, channel, state, chunks, ending⟩
    cases ending <;> rfl
  rw [closeStreams]
  simp only [hclose]

theorem consumer?_closeStreams : c.closeStreams.consumer? i channel =
    (c.consumer? i channel).map fun k => { k with stream := k.stream.hungUp } := by
  rw [closeStreams_eq]
  exact consumer?_map fun k => ⟨rfl, rfl⟩

/-- What is to be written is that of the consumers. -/
theorem pending_of_consumer? (h : c.consumer? i channel = some k) :
    c.pending (i, channel) = restOf k := by
  rw [pending, h]
  rfl

theorem pending_update (h : c.consumer? k.index k.channel = some k') :
    (c.update k).pending key = if key = (k.index, k.channel) then restOf k else c.pending key := by
  rw [pending, consumer?_update h]
  split <;> rfl

theorem pending_drop :
    (c.drop k).pending key = if key = (k.index, k.channel) then [] else c.pending key := by
  rw [pending, consumer?_drop]
  split <;> rfl

/-! ## Settling -/

/-- What an instance is settled on, and that it is announced. -/
theorem settle_eq {state : Verdict} (hs : state ≠ .incomplete) :
    (c.settle k state).1.log.toList = c.log.toList ++
        (if state.settled = .incomplete then [Transcript.closingEntry k.index k.instanceId]
          else []) ∧
      (c.settle k state).1.consumers = (c.drop k).consumers ∧
      (c.settle k state).1.verdicts = c.verdicts.insert k.instanceId state.settled ∧
      (c.settle k state).2 = [(k.instanceId, state.settled)] := by
  cases state with
  | incomplete => exact absurd rfl hs
  | _ => simp [settle, Verdict.settled, assign, drop, note, record, Transcript.closingEntry]

/-- Nothing that standard output can have said is that the instance said nothing. -/
theorem IsSaid.ne_incomplete (h : IsSaid v) : v ≠ .incomplete := by
  rintro rfl
  simp [IsSaid] at h

namespace Classified

/-- The collector of a run that begins. -/
theorem start : Classified [] empty where
  log := .start
  due := by simp [empty]
  settled := by simp

/-- **A consumer reads on**: it makes some of its entries, and comes to the same verdict. -/
theorem goOn (h : Classified xs c) (k' : Consumer) (more : List LogEntry)
    (hk : c.consumer? k.index k.channel = some k)
    (hplace : k'.index = k.index ∧ k'.channel = k.channel) (hrest : restOf k = more ++ restOf k')
    (hdue : k.channel = .output → dueOf k' = dueOf k) (hlog : c'.log.toList = c.log.toList ++ more)
    (hconsumers : c'.consumers = (c.update k').consumers) (hverdicts : c'.verdicts = c.verdicts) :
    Classified xs c' := by
  have hk' : c.consumer? k'.index k'.channel = some k := by rw [hplace.1, hplace.2, hk]
  have hfind : ∀ i channel, c'.consumer? i channel = (c.update k').consumer? i channel := by
    intro i channel
    rw [consumer?, hconsumers, consumer?]
  have hpending : ∀ key, c'.pending key = (c.update k').pending key := by
    intro key
    rw [pending, hfind, pending]
  refine ⟨?_, fun y hy hy' => ?_, fun i x hx hnone => ?_⟩
  · -- what is written is the beginning of what was to be written for this stream
    rw [hlog]
    refine h.log.write (k.index, k.channel) ?_ fun other hother => ?_
    · rw [hpending, pending_update hk', if_pos (by rw [hplace.1, hplace.2]),
        pending_of_consumer? hk, hrest]
    · rw [hpending, pending_update hk', if_neg (by rw [hplace.1, hplace.2]; exact hother)]
  · rw [hconsumers] at hy
    obtain ⟨z, hz, rfl⟩ := List.mem_map.1 hy
    by_cases hsame : (z.index = k'.index && z.channel = k'.channel) = true
    · rw [if_pos hsame] at hy' ⊢
      rw [hplace.2] at hy'
      rw [hplace.1, hdue hy']
      exact h.due k (mem_of_consumer? hk).1 hy'
    · rw [if_neg hsame] at hy' ⊢
      exact h.due z hz hy'
  · rw [hfind, consumer?_update hk'] at hnone
    split at hnone
    · cases hnone
    · rw [hverdicts]
      exact h.settled i x hx hnone

/-- **A consumer is done**: it makes the entries that are left, and where it reads standard
output the instance has its verdict. -/
theorem finish (h : Classified xs c) (hk : c.consumer? k.index k.channel = some k)
    (named : (xs.map Arrival.id)[k.index]? = some k.instanceId)
    (distinct : (xs.map Arrival.id).Nodup) (hlog : c'.log.toList = c.log.toList ++ restOf k)
    (hconsumers : c'.consumers = (c.drop k).consumers)
    (hverdicts : c'.verdicts =
      if k.channel = .output then c.verdicts.insert k.instanceId (dueOf k) else c.verdicts) :
    Classified xs c' := by
  have hfind : ∀ i channel, c'.consumer? i channel = (c.drop k).consumer? i channel := by
    intro i channel
    rw [consumer?, hconsumers, consumer?]
  have hpending : ∀ key, c'.pending key = (c.drop k).pending key := by
    intro key
    rw [pending, hfind, pending]
  refine ⟨?_, fun y hy hy' => ?_, fun i x hx hnone => ?_⟩
  · rw [hlog]
    refine h.log.write (k.index, k.channel) ?_ fun other hother => ?_
    · rw [hpending, pending_drop, if_pos rfl, pending_of_consumer? hk, List.append_nil]
    · rw [hpending, pending_drop, if_neg hother]
  · rw [hconsumers] at hy
    exact h.due y (mem_drop.1 hy).1 hy'
  · rw [hfind, consumer?_drop] at hnone
    split at hnone
    · -- the stream that is done is standard output of the instance
      rename_i heq
      obtain ⟨rfl, hc⟩ := Prod.mk.inj heq
      obtain ⟨y, hy, hdue⟩ := h.due k (mem_of_consumer? hk).1 hc.symm
      rw [hx] at hy
      cases hy
      rw [List.getElem?_map, hx, Option.map_some, Option.some.injEq] at named
      rw [hverdicts, if_pos hc.symm, named, Table.get?_insert_self, hdue]
    · rename_i hne
      have hold := h.settled i x hx hnone
      rw [hverdicts]
      split
      · rename_i hc
        rw [Table.get?_insert_of_ne, hold]
        -- an id is that of one instance only
        rintro heq
        refine hne (Prod.ext ?_ hc.symm)
        have hget : (xs.map Arrival.id)[i]? = (xs.map Arrival.id)[k.index]? := by
          rw [named, List.getElem?_map, hx, Option.map_some, heq]
        have hlt : i < (xs.map Arrival.id).length := by
          rw [List.length_map]
          exact (List.getElem?_eq_some_iff.1 hx).1
        exact (List.getElem?_inj hlt distinct).1 hget
      · exact hold

/-! ## Steps -/

/-- A consumer of standard error reads on. -/
theorem readErrors (h : Classified xs c) (hk : c.consumer? k.index k.channel = some k)
    (hc : k.channel = .errors) (named : (xs.map Arrival.id)[k.index]? = some k.instanceId)
    (distinct : (xs.map Arrival.id).Nodup) (step : c.readErrors k = some c') :
    Classified xs c' := by
  have hrest : ∀ stream, restOf { k with stream := stream } =
      stream.transcript.errorEntries k.index k.instanceId := by
    intro stream
    simp only [restOf, hc]
  have hne : ¬ k.channel = .output := by simp [hc]
  unfold Collector.readErrors at step
  split at step
  · rename_i s stream hread
    cases step
    refine h.goOn { k with stream := stream } [⟨k.index, k.instanceId, none, .error, s⟩] hk
      ⟨rfl, rfl⟩ ?_ (fun hout => absurd hout hne) (by simp [Collector.update, note, record]) rfl rfl
    rw [hrest k.stream, hrest, OctetStream.transcript_of_line hread]
    exact Transcript.errorEntries_cons
  · rename_i n stream hread
    cases step
    refine h.goOn { k with stream := stream }
      [⟨k.index, k.instanceId, none, .error, oversizedText n⟩] hk ⟨rfl, rfl⟩ ?_
      (fun hout => absurd hout hne) (by simp [Collector.update, note, record]) rfl rfl
    rw [hrest k.stream, hrest, OctetStream.transcript_of_line hread]
    exact Transcript.errorEntries_cons
  · rename_i hread
    cases step
    refine h.finish hk named distinct ?_ rfl (by rw [if_neg hne]; rfl)
    rw [hrest k.stream, OctetStream.transcript_of_ended hread]
    exact (List.append_nil _).symm
  · rename_i reason hread
    cases step
    refine h.finish hk named distinct ?_ rfl (by rw [if_neg hne]; rfl)
    rw [hrest k.stream, OctetStream.transcript_of_broken hread]
    simp [Collector.drop, note, record, Transcript.errorEntries]
  · cases step

/-- Standard output is done, with some entries made last. -/
theorem settle (h : Classified xs c) (more : List LogEntry)
    (hk : c.consumer? k.index k.channel = some k) (hc : k.channel = .output)
    (named : (xs.map Arrival.id)[k.index]? = some k.instanceId)
    (distinct : (xs.map Arrival.id).Nodup) {state : Verdict} (hs : IsSaid state)
    (hlog : c'.log.toList = c.log.toList ++ more) (hconsumers : c'.consumers = c.consumers)
    (hverdicts : c'.verdicts = c.verdicts) (hdue : dueOf k = state.settled)
    (hrest : restOf k = more ++ if state.settled = .incomplete
      then [Transcript.closingEntry k.index k.instanceId] else []) :
    Classified xs (c'.settle k state).1 := by
  obtain ⟨hlog', hconsumers', hverdicts', -⟩ :=
    settle_eq (c := c') (k := k) hs.ne_incomplete
  refine h.finish hk named distinct ?_ ?_ ?_
  · rw [hlog', hlog, hrest, List.append_assoc]
  · rw [hconsumers', drop, without, hconsumers]
    rfl
  · rw [hverdicts', hverdicts, if_pos hc, hdue]

/-- A consumer of standard output reads on. -/
theorem readOutput (h : Classified xs c) (hk : c.consumer? k.index k.channel = some k)
    (hc : k.channel = .output) (named : (xs.map Arrival.id)[k.index]? = some k.instanceId)
    (distinct : (xs.map Arrival.id).Nodup) (hs : IsSaid k.state) {said : List Announcement}
    (step : c.readOutput k = some (c', said)) : Classified xs c' := by
  have hrest : ∀ state stream, restOf { k with state := state, stream := stream } =
      stream.transcript.outputEntries k.index k.instanceId state := by
    intro state stream
    simp only [restOf, hc]
  unfold Collector.readOutput at step
  split at step
  · rename_i s stream hread
    have htranscript := OctetStream.transcript_of_line hread
    dsimp only at step
    split at step
    · rename_i hstops
      obtain rfl := congrArg Prod.fst (Option.some.inj step)
      have hstops : (FramedLine.text s).Stops := hstops
      refine h.settle [Transcript.lineEntry k.index k.instanceId (.text s)] hk hc named distinct
        (hs.after _) ?_ rfl rfl ?_ ?_
      · simp [record, Transcript.lineEntry, FramedLine.classified]
      · rw [dueOf, htranscript, Transcript.verdictFrom_of_stops hstops]
        rfl
      · rw [hrest k.state k.stream, htranscript, Transcript.outputEntries_of_stops hstops]
        rfl
    · rename_i hstops
      obtain rfl := congrArg Prod.fst (Option.some.inj step)
      have hstops : ¬ (FramedLine.text s).Stops := hstops
      refine h.goOn { k with state := k.state.after (classify s).effect, stream := stream }
        [Transcript.lineEntry k.index k.instanceId (.text s)] hk ⟨rfl, rfl⟩ ?_ (fun _ => ?_) ?_
        rfl rfl
      · rw [hrest k.state k.stream, hrest, htranscript,
          Transcript.outputEntries_of_not_stops hstops]
        rfl
      · rw [dueOf, dueOf, htranscript, Transcript.verdictFrom_of_not_stops hstops]
        rfl
      · simp [Collector.update, record, Transcript.lineEntry, FramedLine.classified]
  · rename_i n stream hread
    have htranscript := OctetStream.transcript_of_line hread
    have hstops : ¬ (FramedLine.oversized n).Stops := fun h => by cases h
    obtain rfl := congrArg Prod.fst (Option.some.inj step)
    refine h.goOn { k with stream := stream }
      [Transcript.lineEntry k.index k.instanceId (.oversized n)] hk ⟨rfl, rfl⟩ ?_ (fun _ => ?_) ?_
      rfl rfl
    · rw [hrest k.state k.stream, hrest k.state, htranscript,
        Transcript.outputEntries_of_not_stops hstops]
      rfl
    · rw [dueOf, dueOf, htranscript, Transcript.verdictFrom_of_not_stops hstops]
      rfl
    · simp [Collector.update, note, record, Transcript.lineEntry, FramedLine.classified]
  · rename_i hread
    obtain rfl := congrArg Prod.fst (Option.some.inj step)
    have htranscript := OctetStream.transcript_of_ended hread
    refine h.settle [] hk hc named distinct hs (by simp) rfl rfl ?_ ?_
    · rw [dueOf, htranscript]
      rfl
    · rw [hrest k.state k.stream, htranscript, Transcript.outputEntries_nil]
      rfl
  · rename_i reason hread
    obtain rfl := congrArg Prod.fst (Option.some.inj step)
    have htranscript := OctetStream.transcript_of_broken hread
    refine h.settle [Transcript.flawEntry k.index k.instanceId reason] hk hc named distinct hs ?_
      rfl rfl ?_ ?_
    · simp [note, record, Transcript.flawEntry]
    · rw [dueOf, htranscript]
      rfl
    · rw [hrest k.state k.stream, htranscript, Transcript.outputEntries_nil]
      rfl
  · cases step

/-- What holds of an instance that is registered holds of it when another is. -/
theorem settled_append (h : Classified xs c) (hid : x.id ∉ xs.map Arrival.id)
    {y : Arrival} (hlt : i < xs.length) (hy : (xs ++ [x])[i]? = some y)
    (hnone : c.consumer? i .output = none) :
    (c.verdicts.insert x.id v).get? y.id = some y.verdict := by
  rw [List.getElem?_append_left hlt] at hy
  rw [Table.get?_insert_of_ne, h.settled i y hy hnone]
  rintro heq
  exact hid (heq ▸ List.mem_map_of_mem (List.mem_of_getElem? hy))

/-- The place of a consumer's instance does not move. -/
theorem due_append (h : Classified xs c) (hk : k ∈ c.consumers) (hc : k.channel = .output) :
    ∃ y, (xs ++ [x])[k.index]? = some y ∧ dueOf k = y.verdict := by
  obtain ⟨y, hy, hdue⟩ := h.due k hk hc
  rw [List.getElem?_append_left (List.getElem?_eq_some_iff.1 hy).1]
  exact ⟨y, hy, hdue⟩

/-- **An instance that starts** has all its entries to be made. -/
theorem manage (h : Classified xs c) {id : String} {output errors : OctetStream}
    (hcount : c.count = xs.length) (hid : id ∉ xs.map Arrival.id)
    (hlt : ∀ k ∈ c.consumers, k.index < xs.length) :
    Classified (xs ++ [.managed id output errors]) (c.manage id output errors) := by
  have hfind : ∀ i channel, (c.manage id output errors).consumer? i channel =
      if i = xs.length then
        some ⟨i, id, channel, .running, match channel with
          | .output => output
          | .errors => errors⟩
      else c.consumer? i channel := by
    intro i channel
    rw [consumer?_manage, hcount]
    split
    · -- no consumer has the index that is free
      rename_i heq
      have hnone : c.consumer? i channel = none := by
        refine Option.eq_none_iff_forall_ne_some.2 fun k hk => ?_
        obtain ⟨hmem, rfl, -⟩ := mem_of_consumer? hk
        exact absurd (hlt k hmem) (by omega)
      rw [hnone, Option.none_or]
    · exact Option.or_none
  have hpending : (c.manage id output errors).pending = fun key =>
      if key.1 = xs.length then (Arrival.managed id output errors).entries key.1 key.2
      else c.pending key := by
    funext ⟨i, channel⟩
    rw [pending, hfind]
    split
    · cases channel <;> rfl
    · rfl
  refine ⟨?_, fun k hk hc => ?_, fun i y hy hnone => ?_⟩
  · rw [hpending]
    exact h.log.register _
  · rcases List.mem_append.1 hk with hk | hk
    · exact h.due_append hk hc
    · refine ⟨.managed id output errors, ?_, ?_⟩
      all_goals
        simp only [List.mem_cons, List.not_mem_nil, or_false] at hk
        rcases hk with rfl | rfl
        · cases hc
      · rw [hcount, List.getElem?_concat_length]
      · rfl
  · rw [hfind] at hnone
    split at hnone
    · cases hnone
    · rename_i hne
      have hlt' : i < xs.length := by
        have := (List.getElem?_eq_some_iff.1 hy).1
        rw [List.length_append, List.length_singleton] at this
        omega
      exact h.settled_append (x := .managed id output errors) hid hlt' hy hnone

/-- **An instance that does not start** has its one entry at once. -/
theorem failStart (h : Classified xs c) {id reason : String} (hcount : c.count = xs.length)
    (hid : id ∉ xs.map Arrival.id) :
    Classified (xs ++ [.refused id reason]) (c.failStart id reason).1 := by
  have hlog : (c.failStart id reason).1.log.toList =
      c.log.toList ++ [⟨c.count, id, none, .incomplete, "failed to start: " ++ reason⟩] := by
    simp [Collector.failStart, assign, record, register]
  refine ⟨?_, fun k hk hc => h.due_append hk hc, fun i y hy hnone => ?_⟩
  · rw [hlog]
    refine (h.log.register (.refused id reason)).write (xs.length, .output) ?_
      fun other hother => ?_
    · have hnone : c.pending (xs.length, .output) = [] := h.log.rest_of_le (Nat.le_refl _)
      rw [if_pos rfl, hcount]
      exact (congrArg _ hnone).symm
    · split
      · -- it makes nothing else
        rename_i heq
        have hnone : c.pending other = [] := h.log.rest_of_le (Nat.le_of_eq heq.symm)
        obtain ⟨i, channel⟩ := other
        cases channel with
        | output => exact absurd (congrArg (·, Channel.output) heq) hother
        | errors => exact hnone
      · rfl
  · rcases Nat.lt_or_ge i xs.length with hlt | hge
    · exact h.settled_append (x := .refused id reason) hid hlt hy hnone
    · have hi : i = xs.length := by
        have := (List.getElem?_eq_some_iff.1 hy).1
        rw [List.length_append, List.length_singleton] at this
        omega
      rw [hi, List.getElem?_concat_length, Option.some.injEq] at hy
      subst hy
      exact Table.get?_insert_self

/-- Closing the streams changes nothing in what is to be made. -/
theorem closeStreams (h : Classified xs c) : Classified xs c.closeStreams := by
  have hrest : ∀ k : Consumer, restOf { k with stream := k.stream.hungUp } = restOf k := by
    intro k
    simp only [restOf, OctetStream.transcript_hungUp]
  refine ⟨?_, fun k hk hc => ?_, fun i x hx hnone => ?_⟩
  · have hpending : c.closeStreams.pending = c.pending := by
      funext key
      rw [pending, consumer?_closeStreams, Option.map_map, pending]
      congr 2
      funext k
      exact hrest k
    rw [hpending]
    exact h.log
  · rw [closeStreams_eq] at hk
    obtain ⟨y, hy, rfl⟩ := List.mem_map.1 hk
    rw [dueOf, OctetStream.transcript_hungUp]
    exact h.due y hy hc
  · rw [consumer?_closeStreams, Option.map_eq_none_iff] at hnone
    exact h.settled i x hx hnone

/-- **The step lemma**, without a cancellation. -/
theorem act (h : Classified xs c) {a : Action} {said : List Announcement}
    (books : Balanced (xs.map Arrival.id) false c)
    (distinct : ((xs ++ a.arrival?.toList).map Arrival.id).Nodup)
    (step : c.act false a = some (c', said)) : Classified (xs ++ a.arrival?.toList) c' := by
  have hcount : c.count = xs.length := by rw [books.count, List.length_map]
  have hlt : ∀ k ∈ c.consumers, k.index < xs.length := fun k hk => by
    simpa using books.index_lt hk
  cases a with
  | manage id output errors =>
    obtain rfl := congrArg Prod.fst (Option.some.inj step)
    rw [Action.arrival?, Option.toList_some, List.map_append] at distinct
    exact h.manage hcount (Balanced.not_mem_of_nodup_concat distinct) hlt
  | failStart id reason =>
    obtain rfl := congrArg Prod.fst (Option.some.inj step)
    rw [Action.arrival?, Option.toList_some, List.map_append] at distinct
    exact h.failStart hcount (Balanced.not_mem_of_nodup_concat distinct)
  | read index channel =>
    rw [Action.arrival?, Option.toList_none, List.append_nil] at distinct ⊢
    obtain ⟨k, hk, hread⟩ := Option.bind_eq_some_iff.1 step
    obtain ⟨hmem, rfl, rfl⟩ := mem_of_consumer? hk
    have named := books.named k hmem
    unfold Collector.read at hread
    split at hread
    · rename_i hc
      obtain ⟨d, hd, heq⟩ := Option.map_eq_some_iff.1 hread
      obtain rfl := congrArg Prod.fst heq
      exact h.readErrors hk hc named distinct hd
    · rename_i hc
      exact h.readOutput hk hc named distinct (books.said k hmem) hread
  | quit index channel =>
    obtain ⟨k, -, hquit⟩ := Option.bind_eq_some_iff.1 step
    cases hquit

end Classified

/-! ## Courses -/

theorem arrivals_append (es : List Event) (e : Event) :
    arrivals (es ++ [e]) = arrivals es ++ e.arrival?.toList := by
  rw [arrivals, List.filterMap_append, ← arrivals]
  cases h : e.arrival? <;> simp [h]

/-- The instances are those that the books are kept of. -/
theorem ids_arrivals (es : List Event) : (arrivals es).map Arrival.id = registered es := by
  induction es using List.reverseRecOn with
  | nil => rfl
  | append_singleton es e ih =>
    rw [arrivals_append, registered_append, List.map_append, ih]
    cases e with
    | act a => cases a <;> rfl
    | cancel => rfl
    | hangUp => rfl

/-- **The run lemma**: behind every course without a cancellation the collector is on its
way to what the instances make. -/
theorem Follows.onItsWay (h : Follows es c canceled) (distinct : (registered es).Nodup)
    (uncanceled : Event.cancel ∉ es) : canceled = false ∧ Classified (arrivals es) c := by
  induction h with
  | start => exact ⟨rfl, .start⟩
  | @act es c c' canceled a said follows step ih =>
    rw [registered_append] at distinct
    have hdistinct := (List.nodup_append.1 distinct).1
    obtain ⟨rfl, hway⟩ := ih hdistinct fun hmem => uncanceled (List.mem_append_left _ hmem)
    refine ⟨rfl, ?_⟩
    have books := follows.balanced hdistinct
    rw [← ids_arrivals] at books
    rw [← registered_append, ← ids_arrivals, arrivals_append] at distinct
    rw [arrivals_append]
    exact hway.act books distinct step
  | cancel => exact absurd (List.mem_append_right _ (List.mem_singleton_self _)) uncanceled
  | @hangUp es c canceled _ ih =>
    rw [registered_append, Event.registered, List.append_nil] at distinct
    obtain ⟨hc, hway⟩ := ih distinct fun hmem => uncanceled (List.mem_append_left _ hmem)
    refine ⟨hc, ?_⟩
    rw [arrivals_append, Event.arrival?, Option.toList_none, List.append_nil]
    exact hway.closeStreams

/-! ## The end -/

/-- An entry of a script carries the index of its instance, and its id. -/
theorem of_mem_script {e : LogEntry} (h : e ∈ script xs key) :
    ∃ x, xs[e.index]? = some x ∧ e.instanceId = x.id := by
  unfold script at h
  split at h
  · rename_i x hx
    have hplace : e.index = key.1 ∧ e.instanceId = x.id := by
      obtain ⟨i, channel⟩ := key
      cases x with
      | managed id output errors =>
        cases channel with
        | output => exact Transcript.of_mem_outputEntries h
        | errors => exact Transcript.of_mem_errorEntries h
      | refused id reason =>
        cases channel with
        | output =>
          cases List.mem_singleton.1 h
          exact ⟨rfl, rfl⟩
        | errors => cases h
    exact ⟨x, hplace.1 ▸ hx, hplace.2⟩
  · cases h

namespace Classified

/-- The log of a collector without consumers is a shuffle of the scripts. -/
theorem shuffle (h : Classified xs c) (done : c.isDone = true) :
    Shuffle (script xs) c.log.toList := by
  obtain ⟨ys, hys, hparts⟩ := h.log
  refine ⟨ys, hys, fun key => ?_⟩
  rw [← hparts key, pending, consumer?, List.isEmpty_iff.1 done]
  exact (List.append_nil _).symm

/-- Its table is that of the verdicts that the instances were to have. -/
theorem verdicts_eq (h : Classified xs c) (books : Balanced (xs.map Arrival.id) canceled c)
    (distinct : (xs.map Arrival.id).Nodup) (done : c.isDone = true) :
    c.verdicts = Table.ofList (xs.map fun x => (x.id, x.verdict)) := by
  have hkeys : ((xs.map fun x => (x.id, x.verdict)).map Prod.fst).Nodup := by
    rwa [List.map_map]
  have final : ∀ x ∈ xs, c.verdicts.get? x.id = some x.verdict := by
    intro x hx
    obtain ⟨i, hi⟩ := List.mem_iff_getElem?.1 hx
    exact h.settled i x hi (by rw [consumer?, List.isEmpty_iff.1 done]; rfl)
  refine books.sorted.ext (Table.sorted_ofList _) fun id => Option.ext fun v => ?_
  rw [← (Table.sorted_ofList _).mem_iff_get?, (Table.ofList_perm hkeys).mem_iff, List.mem_map]
  constructor
  · intro hget
    have hmem : id ∈ c.verdicts.keys := List.mem_map_of_mem (f := Prod.fst) (Table.mem_of_get? hget)
    obtain ⟨x, hx, rfl⟩ := List.mem_map.1 ((books.keys id).1 hmem)
    rw [final x hx] at hget
    cases hget
    exact ⟨x, hx, rfl⟩
  · rintro ⟨x, hx, heq⟩
    cases heq
    exact final x hx

end Classified

/-- **What a run that is not canceled comes to** depends on the instances registered, and
not on the order of the steps. Once no consumer is left, the verdicts are those of the
instances, and so are the count of failures and the outcome; the log is a shuffle of the
entries of their streams; and each entry carries the id of its instance, and its index among
those registered. -/
theorem Follows.classified (h : Follows es c canceled) (distinct : (registered es).Nodup)
    (uncanceled : Event.cancel ∉ es) (done : c.isDone = true) :
    (arrivals es).map Arrival.id = registered es ∧
      c.verdicts = Table.ofList ((arrivals es).map fun x => (x.id, x.verdict)) ∧
      c.failed = failuresOf (arrivals es) ∧
      c.outcome canceled = outcomeOf (arrivals es) ∧
      Shuffle (script (arrivals es)) c.log.toList ∧
      ∀ e ∈ c.log.toList, ∃ x, (arrivals es)[e.index]? = some x ∧ e.instanceId = x.id := by
  obtain ⟨rfl, hway⟩ := h.onItsWay distinct uncanceled
  have books := h.balanced distinct
  rw [← ids_arrivals] at books distinct
  have hverdicts := hway.verdicts_eq books distinct done
  have hfailed : c.failed = failuresOf (arrivals es) := by
    have hkeys : (((arrivals es).map fun x => (x.id, x.verdict)).map Prod.fst).Nodup := by
      rwa [List.map_map]
    rw [books.failed, hverdicts, failures, (Table.ofList_perm hkeys).countP_eq, List.countP_map]
    rfl
  have hshuffle := hway.shuffle done
  refine ⟨ids_arrivals es, hverdicts, hfailed, ?_, hshuffle, fun e he => ?_⟩
  · simp [outcome, outcomeOf, hfailed]
  · obtain ⟨ys, hys, hparts⟩ := hshuffle
    rw [← hys] at he
    obtain ⟨⟨key, e⟩, hmem, rfl⟩ := List.mem_map.1 he
    have hscript : e ∈ script (arrivals es) key := by
      rw [← hparts key]
      exact List.mem_map_of_mem (f := Prod.snd) (List.mem_filter.2 ⟨hmem, by simp⟩)
    exact of_mem_script hscript

/-- One instance does not start, and one says a word and nothing of how it finished. -/
theorem classified_of_word :
    ∃ (es : List Event) (c : Collector), Follows es c false ∧ (registered es).Nodup ∧
      Event.cancel ∉ es ∧ c.isDone = true ∧ c.outcome false = outcomeOf (arrivals es) ∧
        Shuffle (script (arrivals es)) c.log.toList := by
  have hrun : Follows
      [.act (.failStart "b" "no file"), .act (.manage "a" (.ofText "hi") ⟨[], .silent⟩),
        .act (.read 1 .output), .act (.read 1 .output), .hangUp, .act (.read 1 .errors)]
      ⟨2, 2, [("a", .incomplete), ("b", .incomplete)],
        #[⟨0, "b", none, .incomplete, "failed to start: no file"⟩, ⟨1, "a", none, .other, "hi"⟩,
          ⟨1, "a", none, .incomplete, ""⟩], []⟩ false :=
    .act (.hangUp (.act (.act (.act (.act .start rfl) rfl) rfl) rfl)) rfl
  have hclassified := hrun.classified (by decide) (by simp) rfl
  exact ⟨_, _, hrun, by decide, by simp, rfl, hclassified.2.2.2.1, hclassified.2.2.2.2.1⟩

end Collector

end Conductor
