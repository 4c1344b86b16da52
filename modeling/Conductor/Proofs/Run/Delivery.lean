import Conductor.Proofs.Log.EventLines
import Conductor.Proofs.Run.Classification
/-!
# Runs — what an instance says arrives

An instance that puts its events into envelopes, each on a line of its standard output,
finds them in the log of the run: an entry for each, in their order, with the class, the
text and the time that the event says once its numbers are reread, and with the verdict on
the instance that the events come to (`Collector.Follows.delivered`). It does not matter how
the octets were cut into chunks, what else the run logs, or in which order the consumers take
their steps. A number of many digits and a leap second do not arrive as they were sent
(`Collector.not_delivered_as_said`).

The consumer of a stream that has been closed comes to its end by reading on
(`Collector.Follows.drains`), for closed streams stay closed
(`Collector.Follows.closed_output`).
-/

namespace Conductor

namespace Collector

variable {xs : List Arrival} {c c' : Collector} {k k' : Consumer} {i : Nat} {key : StreamKey}
  {es : List Event} {canceled : Bool} {a : Action} {said : List Announcement}

/-! ## The entries of a stream -/

/-- Lines of standard output are not of the class of standard error. -/
theorem classified_ne_error (l : FramedLine) : l.classified.lineClass ≠ .error := by
  cases l with
  | oversized n => simp [FramedLine.classified]
  | text s =>
    rw [FramedLine.classified, classify]
    split
    · rename_i env _
      unfold Envelope.classify
      dsimp only
      split <;> try split
      all_goals simp
    · simp

/-- So no entry of standard output is. -/
theorem ne_error_of_mem_outputEntries {e : LogEntry} {index : Nat} {id : String} {state : Verdict}
    {t : Transcript} (h : e ∈ t.outputEntries index id state) : e.lineClass ≠ .error := by
  rcases Transcript.mem_outputEntries_cases h with ⟨l, rfl⟩ | ⟨reason, rfl⟩ | rfl
  · exact classified_ne_error l
  · simp [Transcript.flawEntry]
  · simp [Transcript.closingEntry]

/-- An entry of a script has the index of its stream, and its class tells the stream. -/
theorem mem_script {e : LogEntry} (h : e ∈ script xs key) :
    e.index = key.1 ∧ (e.lineClass = .error ↔ key.2 = .errors) := by
  obtain ⟨i, channel⟩ := key
  unfold script at h
  split at h
  · rename_i x hx
    cases x with
    | managed id output errors =>
      cases channel with
      | output =>
        have hclass := ne_error_of_mem_outputEntries h
        exact ⟨(Transcript.of_mem_outputEntries h).1, by simpa using hclass⟩
      | errors =>
        obtain ⟨text, -, rfl⟩ := List.mem_map.1 h
        simp
    | refused id reason =>
      cases channel with
      | output =>
        cases List.mem_singleton.1 h
        simp
      | errors => cases h
  · cases h

/-- **The entries of standard output** of an instance, once its consumer is done. -/
theorem Classified.filter_log (h : Classified xs c) (hnone : c.consumer? i .output = none) :
    c.log.toList.filter (fun e => e.index = i ∧ e.lineClass ≠ .error) = script xs (i, .output) := by
  obtain ⟨ys, hys, hparts⟩ := h.log
  have hplace : ∀ y ∈ ys, y.2.index = y.1.1 ∧ (y.2.lineClass = .error ↔ y.1.2 = .errors) := by
    intro y hy
    refine @mem_script xs y.1 y.2 ?_
    rw [← hparts y.1]
    exact List.mem_append_left _ (List.mem_map_of_mem (List.mem_filter.2 ⟨hy, by simp⟩))
  rw [← hparts (i, .output), pending, hnone, Option.map_none, Option.getD_none, List.append_nil,
    ← hys, List.filter_map]
  -- an entry tells its stream by its index and its class
  refine congrArg _ (List.filter_congr fun y hy => ?_)
  obtain ⟨hindex, hclass⟩ := hplace y hy
  obtain ⟨⟨j, channel⟩, e⟩ := y
  cases channel <;> simp_all

/-! ## Closed streams -/

/-- Settling drops the consumer. -/
theorem consumers_settle (c : Collector) (k : Consumer) (v : Verdict) :
    (c.settle k v).1.consumers = (c.drop k).consumers := by
  unfold settle
  split <;> rfl

/-- The consumers behind an update are those before it, but for the new one. -/
theorem of_mem_update (h : k' ∈ (c.update k).consumers) : k' = k ∨ k' ∈ c.consumers := by
  obtain ⟨x, hx, rfl⟩ := List.mem_map.1 h
  split
  · exact .inl rfl
  · exact .inr hx

/-- **A consumer that reads on** is done, or has read a line and stays in its place. -/
theorem consumers_read (step : c.read k = some (c', said)) :
    c'.consumers = (c.drop k).consumers ∨
      ∃ line state rest, k.stream.readLine = .line line rest ∧
        c'.consumers = (c.update { k with state := state, stream := rest }).consumers := by
  unfold Collector.read at step
  split at step
  · obtain ⟨d, hd, heq⟩ := Option.map_eq_some_iff.1 step
    obtain rfl := congrArg Prod.fst heq
    unfold Collector.readErrors at hd
    split at hd
    · rename_i s rest hread
      cases hd
      exact .inr ⟨_, k.state, rest, hread, rfl⟩
    · rename_i n rest hread
      cases hd
      exact .inr ⟨_, k.state, rest, hread, rfl⟩
    · cases hd
      exact .inl rfl
    · cases hd
      exact .inl rfl
    · cases hd
  · unfold Collector.readOutput at step
    split at step
    · rename_i s rest hread
      dsimp only at step
      split at step
      · obtain rfl := congrArg Prod.fst (Option.some.inj step)
        exact .inl (consumers_settle _ _ _)
      · obtain rfl := congrArg Prod.fst (Option.some.inj step)
        exact .inr ⟨_, _, rest, hread, rfl⟩
    · rename_i n rest hread
      obtain rfl := congrArg Prod.fst (Option.some.inj step)
      exact .inr ⟨_, k.state, rest, hread, rfl⟩
    · obtain rfl := congrArg Prod.fst (Option.some.inj step)
      exact .inl (consumers_settle _ _ _)
    · obtain rfl := congrArg Prod.fst (Option.some.inj step)
      exact .inl (consumers_settle _ _ _)
    · cases step

/-- A consumer can read on unless it has to wait. -/
theorem read_eq_some (h : k.stream.readLine ≠ .waiting) :
    ∃ c' said, c.read k = some (c', said) := by
  unfold Collector.read
  split
  · unfold Collector.readErrors
    split
    · exact ⟨_, _, rfl⟩
    · exact ⟨_, _, rfl⟩
    · exact ⟨_, _, rfl⟩
    · exact ⟨_, _, rfl⟩
    · exact absurd ‹_› h
  · unfold Collector.readOutput
    split
    · dsimp only
      split <;> exact ⟨_, _, rfl⟩
    · exact ⟨_, _, rfl⟩
    · exact ⟨_, _, rfl⟩
    · exact ⟨_, _, rfl⟩
    · exact absurd ‹_› h

/-- Where a consumer behind a step comes from: it has been there, it has read a line, or it
reads a stream of an instance that was registered in the step. -/
theorem of_mem_consumers_act (step : c.act canceled a = some (c', said)) (hk' : k' ∈ c'.consumers) :
    k' ∈ c.consumers ∨
      (∃ k ∈ c.consumers, k'.index = k.index ∧ k'.channel = k.channel ∧
        ∃ line, k.stream.readLine = .line line k'.stream) ∨
      ∃ id output errors, a = .manage id output errors ∧ k'.index = c.count ∧
        (k'.channel = .output → k'.stream = output) := by
  cases a with
  | manage id output errors =>
    obtain rfl := congrArg Prod.fst (Option.some.inj step)
    rcases List.mem_append.1 hk' with hold | hnew
    · exact .inl hold
    · refine .inr (.inr ⟨id, output, errors, rfl, ?_⟩)
      simp only [List.mem_cons, List.not_mem_nil, or_false] at hnew
      rcases hnew with rfl | rfl <;> simp
  | failStart id reason =>
    obtain rfl := congrArg Prod.fst (Option.some.inj step)
    exact .inl hk'
  | read index channel =>
    obtain ⟨k, hk, hread⟩ := Option.bind_eq_some_iff.1 step
    have hmem := (mem_of_consumer? hk).1
    rcases consumers_read hread with hdrop | ⟨line, state, rest, hline, hupdate⟩
    · rw [hdrop] at hk'
      exact .inl (mem_drop.1 hk').1
    · rw [hupdate] at hk'
      rcases of_mem_update hk' with rfl | hold
      · exact .inr (.inl ⟨k, hmem, rfl, rfl, line, hline⟩)
      · exact .inl hold
  | quit index channel =>
    obtain ⟨k, hk, hquit⟩ := Option.bind_eq_some_iff.1 step
    split at hquit
    · obtain rfl := congrArg Prod.fst (Option.some.inj hquit)
      refine .inl ?_
      unfold Collector.quit at hk'
      split at hk'
      · exact (mem_drop.1 hk').1
      · rw [consumers_settle] at hk'
        exact (mem_drop.1 hk').1
    · cases hquit

/-- **Closed streams stay closed.** -/
theorem Follows.closed_output (h : Follows es c canceled) (distinct : (registered es).Nodup)
    (closed : ∀ id output errors, (arrivals es)[i]? = some (.managed id output errors) →
      output.ending = .closed) :
    ∀ k ∈ c.consumers, k.index = i → k.channel = .output → k.stream.ending = .closed := by
  induction h with
  | start => simp [empty]
  | @act es c c' canceled a said follows step ih =>
    rw [registered_append] at distinct
    have hdistinct := (List.nodup_append.1 distinct).1
    have hcount : c.count = (arrivals es).length := by
      rw [(follows.balanced hdistinct).count, ← ids_arrivals, List.length_map]
    rw [arrivals_append] at closed
    have hold := ih hdistinct fun id output errors hi => closed id output errors <| by
      rw [List.getElem?_append_left (List.getElem?_eq_some_iff.1 hi).1, hi]
    intro k' hk' hindex hchannel
    rcases of_mem_consumers_act step hk' with
      hmem | ⟨k, hmem, hk, hc, line, hline⟩ | ⟨id, output, errors, rfl, hk, hstream⟩
    · exact hold k' hmem hindex hchannel
    · have hclosed := hold k hmem (hk.symm.trans hindex) (hc.symm.trans hchannel)
      exact (OctetStream.ending_of_line hline).trans hclosed
    · -- an instance that is registered has the index that was free
      rw [hstream hchannel]
      refine closed id output errors ?_
      rw [← hindex, hk, hcount]
      exact List.getElem?_concat_length ..
  | cancel _ ih =>
    rw [registered_append, Event.registered, List.append_nil] at distinct
    rw [arrivals_append, Event.arrival?, Option.toList_none, List.append_nil] at closed
    exact ih distinct closed
  | @hangUp es c canceled _ ih =>
    rw [registered_append, Event.registered, List.append_nil] at distinct
    rw [arrivals_append, Event.arrival?, Option.toList_none, List.append_nil] at closed
    intro k' hk' hindex hchannel
    obtain ⟨k, hk, rfl⟩ := List.mem_map.1 hk'
    split
    · rfl
    · rename_i hne
      rw [if_neg hne] at hindex hchannel
      exact ih distinct closed k hk hindex hchannel

/-! ## Reading to the end -/

/-- A consumer of a closed stream reads on, and is done or has less to read. -/
theorem act_read_closed (hk : c.consumer? i .output = some k)
    (hclosed : k.stream.ending = .closed) :
    ∃ c' said, c.act canceled (.read i .output) = some (c', said) ∧
      (c'.consumer? i .output = none ∨
        ∃ k', c'.consumer? i .output = some k' ∧ k'.stream.ending = .closed ∧
          k'.stream.chunks.flatten.length < k.stream.chunks.flatten.length) := by
  obtain ⟨-, rfl, hchannel⟩ := mem_of_consumer? hk
  have hwait : k.stream.readLine ≠ .waiting := by
    rcases OctetStream.readLine_closed hclosed with h | ⟨line, rest, h, -⟩ <;> simp [h]
  obtain ⟨c', said, hread⟩ := read_eq_some (c := c) hwait
  have hact : c.act canceled (.read k.index .output) = some (c', said) := by
    rw [act, hk]
    exact hread
  refine ⟨c', said, hact, ?_⟩
  rcases consumers_read hread with hdrop | ⟨line, state, rest, hline, hupdate⟩
  · refine .inl ?_
    rw [consumer?, hdrop]
    exact consumer?_drop.trans (if_pos (by rw [hchannel]))
  · refine .inr ⟨{ k with state := state, stream := rest }, ?_,
      (OctetStream.ending_of_line hline).trans hclosed, OctetStream.readLine_lt hline⟩
    have hfind := @consumer?_update c { k with state := state, stream := rest } k k.index .output
      (by rw [hchannel, hk])
    rw [if_pos (by rw [hchannel])] at hfind
    rw [consumer?, hupdate]
    exact hfind

/-- **A consumer of a closed stream comes to its end**, if it reads on. -/
theorem Follows.drains (h : Follows es c canceled)
    (closed : ∀ k, c.consumer? i .output = some k → k.stream.ending = .closed) :
    ∃ n c', Follows (es ++ List.replicate n (.act (.read i .output))) c' canceled ∧
      c'.consumer? i .output = none := by
  cases hk : c.consumer? i .output with
  | none => exact ⟨0, c, by simpa using h, hk⟩
  | some k =>
    -- on the octets that are left
    induction hn : k.stream.chunks.flatten.length using Nat.strong_induction_on
      generalizing es c k with
    | _ n ih =>
      obtain ⟨c', said, hact, hnone | ⟨k', hk', hclosed, hlt⟩⟩ :=
        @act_read_closed c k i canceled hk (closed k hk)
      · exact ⟨1, c', h.act hact, hnone⟩
      · have closed' : ∀ k, c'.consumer? i .output = some k → k.stream.ending = .closed := by
          intro y hy
          cases hk'.symm.trans hy
          exact hclosed
        obtain ⟨m, c'', hdone, hnone⟩ := ih _ (hn ▸ hlt) (h.act hact) closed' k' hk' rfl
        refine ⟨m + 1, c'', ?_, hnone⟩
        rw [List.replicate_succ, List.append_cons]
        exact hdone

/-- So does the consumer of an instance whose standard output is closed. -/
theorem Follows.drains_managed {id : String} {output errors : OctetStream}
    (h : Follows es c canceled) (distinct : (registered es).Nodup)
    (managed : (arrivals es)[i]? = some (.managed id output errors))
    (closed : output.ending = .closed) :
    ∃ n c', Follows (es ++ List.replicate n (.act (.read i .output))) c' canceled ∧
      c'.consumer? i .output = none := by
  refine h.drains fun k hk => ?_
  obtain ⟨hmem, hindex, hchannel⟩ := mem_of_consumer? hk
  refine h.closed_output distinct (fun id' output' errors' hi => ?_) k hmem hindex hchannel
  cases managed.symm.trans hi
  exact closed

/-- There is a course in which a closed stream is read to its end. -/
theorem exists_drained (id : String) {output : OctetStream} (closed : output.ending = .closed) :
    ∃ es c, Follows es c false ∧ (registered es).Nodup ∧ Event.cancel ∉ es ∧
      (arrivals es)[0]? = some (.managed id output ⟨[], .closed⟩) ∧
      c.consumer? 0 .output = none := by
  have hstart : Follows [.act (.manage id output ⟨[], .closed⟩)] _ false := .act .start rfl
  obtain ⟨n, c, hrun, hnone⟩ :=
    hstart.drains_managed (i := 0) (List.nodup_singleton id) rfl closed
  have hregistered : registered (.act (.manage id output ⟨[], .closed⟩) ::
      List.replicate n (.act (.read 0 .output))) = [id] := by
    simp [registered, Event.registered, Action.registered]
  refine ⟨_, c, hrun, ?_, ?_, ?_, hnone⟩
  · rw [List.singleton_append, hregistered]
    exact List.nodup_singleton id
  · simp [List.mem_replicate]
  · simp [arrivals, Event.arrival?, Action.arrival?]

/-! ## Delivery -/

/-- The log of an instance whose standard output carries envelopes, each on a line of its
own, once its consumer is done. -/
theorem Follows.log_of_envelopes {id : String} {output errors : OctetStream}
    {envs : List Envelope} (h : Follows es c canceled) (distinct : (registered es).Nodup)
    (uncanceled : Event.cancel ∉ es)
    (managed : (arrivals es)[i]? = some (.managed id output errors))
    (closed : output.ending = .closed)
    (octets : output.chunks.flatten =
      envs.flatMap fun env => Text.Utf8.ofString env.toLine ++ [Framing.newline])
    (deliverable : ∀ env ∈ envs, env.Deliverable) (hnone : c.consumer? i .output = none) :
    ∃ entries, List.Forall₂ (Envelope.Entered i id) envs entries ∧
      c.log.toList.filter (fun e => e.index = i ∧ e.lineClass ≠ .error) =
        entries ++ if Conductor.Event.verdict (envs.map Envelope.event) = .incomplete then
          [Transcript.closingEntry i id] else [] := by
  obtain ⟨-, hway⟩ := h.onItsWay distinct uncanceled
  have hlog := hway.filter_log hnone
  have hscript : script (arrivals es) (i, .output) =
      output.transcript.outputEntries i id .running := by
    rw [script, managed]
    rfl
  obtain ⟨entries, hentries, hout⟩ := @Transcript.outputEntries_envelopes envs i id deliverable
  rw [hscript, OctetStream.transcript_of_envelopes deliverable closed octets, hout] at hlog
  exact ⟨entries, hentries, hlog⟩

/-- An entry of standard output is one of those, or the closing one. -/
theorem mem_of_outputLog {id : String} {e : LogEntry} {entries : List LogEntry} {p : Prop}
    [Decidable p]
    (hlog : c.log.toList.filter (fun e => e.index = i ∧ e.lineClass ≠ .error) =
      entries ++ if p then [Transcript.closingEntry i id] else [])
    (he : e ∈ c.log.toList) (hi : e.index = i) (hclass : e.lineClass ≠ .error) :
    e ∈ entries ∨ e = Transcript.closingEntry i id := by
  have hmem : e ∈ c.log.toList.filter (fun e => e.index = i ∧ e.lineClass ≠ .error) :=
    List.mem_filter.2 ⟨he, by simp [hi, hclass]⟩
  rw [hlog, List.mem_append] at hmem
  refine hmem.imp_right fun hclosing => ?_
  split at hclosing
  · exact List.mem_singleton.1 hclosing
  · cases hclosing

/-- **What an instance says arrives.** The standard output of the instance at an index is
closed and carries envelopes, each on a line of its own, and the run is not canceled. Then
the consumer comes to its end by reading on. Once it has, the log has an entry for each
envelope, in their order, and a closing one if no event says how the instance finished;
no line is one that could not be read; and the verdict is that of the events. -/
theorem Follows.delivered {id : String} {output errors : OctetStream} {envs : List Envelope}
    (h : Follows es c canceled) (distinct : (registered es).Nodup)
    (uncanceled : Event.cancel ∉ es)
    (managed : (arrivals es)[i]? = some (.managed id output errors))
    (closed : output.ending = .closed)
    (octets : output.chunks.flatten =
      envs.flatMap fun env => Text.Utf8.ofString env.toLine ++ [Framing.newline])
    (deliverable : ∀ env ∈ envs, env.Deliverable) :
    (∃ n c', Follows (es ++ List.replicate n (.act (.read i .output))) c' canceled ∧
      c'.consumer? i .output = none) ∧
    (c.consumer? i .output = none →
      (∃ entries, List.Forall₂ (Envelope.Entered i id) envs entries ∧
        c.log.toList.filter (fun e => e.index = i ∧ e.lineClass ≠ .error) =
          entries ++ if Conductor.Event.verdict (envs.map Envelope.event) = .incomplete then
            [Transcript.closingEntry i id] else []) ∧
      (∀ e ∈ c.log.toList, e.index = i → e.lineClass ≠ .other ∧ e.lineClass ≠ .internalError) ∧
      c.verdicts.get? id = some (Conductor.Event.verdict (envs.map Envelope.event))) := by
  refine ⟨h.drains_managed distinct managed closed, fun hnone => ?_⟩
  obtain ⟨entries, hentries, hlog⟩ :=
    h.log_of_envelopes distinct uncanceled managed closed octets deliverable hnone
  refine ⟨⟨entries, hentries, hlog⟩, fun e he hi => ?_, ?_⟩
  · by_cases herror : e.lineClass = .error
    · simp [herror]
    · rcases mem_of_outputLog hlog he hi herror with hentry | rfl
      · exact Envelope.lineClass_of_entered hentries e hentry
      · simp [Transcript.closingEntry]
  · obtain ⟨-, hway⟩ := h.onItsWay distinct uncanceled
    have hverdict := hway.settled i _ managed hnone
    rw [Arrival.verdict, OctetStream.transcript_of_envelopes deliverable closed octets,
      Transcript.verdict_envelopes deliverable] at hverdict
    exact hverdict

namespace Spoken

/-- Two envelopes: a metric, and a crash with an error of two lines. -/
def words : List Envelope :=
  [⟨some (.ofNanos 7), .ofMetric (.object [("x", .nat 1)])⟩,
    ⟨none, .crashed "one\ntwo" "main"⟩]

/-- Their octets. -/
def octets : List UInt8 :=
  words.flatMap fun env => Text.Utf8.ofString env.toLine ++ [Framing.newline]

/-- They arrive in two chunks, the first of which ends within a line. -/
def output : OctetStream := ⟨[octets.take 7, octets.drop 7], .closed⟩

theorem closed : output.ending = .closed := rfl

theorem flatten_chunks : output.chunks.flatten = octets := by
  simp [output]

theorem fits : ∀ env ∈ words, (Text.Utf8.ofString env.toLine).length + 1 ≤ maxLine := by
  decide +kernel

theorem deliverable : ∀ env ∈ words, env.Deliverable := by
  intro env h
  refine ⟨?_, ?_, fits env h, ?_⟩
  all_goals
    rcases List.mem_pair.1 h with rfl | rfl
  · rintro v (_ | ⟨_, ⟨⟩⟩)
    exact ⟨List.pairwise_singleton .., rfl, trivial⟩
  · nofun
  · decide
  · nofun
  · nofun
  · exact fun _ => ⟨.crashed, rfl, rfl⟩

end Spoken

/-- Both envelopes are found in the log, and the instance has failed. -/
theorem delivered_of_words :
    ∃ (es : List Event) (c : Collector), Follows es c false ∧ (registered es).Nodup ∧
      Event.cancel ∉ es ∧
      (arrivals es)[0]? = some (.managed "a" Spoken.output ⟨[], .closed⟩) ∧
      c.consumer? 0 .output = none ∧
      (∃ entries, List.Forall₂ (Envelope.Entered 0 "a") Spoken.words entries ∧
        c.log.toList.filter (fun e => e.index = 0 ∧ e.lineClass ≠ .error) = entries) ∧
      c.verdicts.get? "a" = some .failed := by
  obtain ⟨es, c, hrun, hdistinct, hcancel, hmanaged, hnone⟩ := exists_drained "a" Spoken.closed
  obtain ⟨-, hend⟩ :=
    hrun.delivered hdistinct hcancel hmanaged Spoken.closed Spoken.flatten_chunks Spoken.deliverable
  obtain ⟨hlog, -, hverdict⟩ := hend hnone
  have hfailed : Conductor.Event.verdict (Spoken.words.map Envelope.event) = .failed := by decide
  simp only [hfailed, reduceCtorEq, if_false, List.append_nil] at hlog hverdict
  exact ⟨es, c, hrun, hdistinct, hcancel, hmanaged, hnone, hlog, hverdict⟩

namespace Measured

open Envelope.Returned

/-- A metric with a number of seventeen digits, and the start of something in a leap second. -/
def words : List Envelope := [measured, leap]

/-- Their octets, and the end of the stream. -/
def output : OctetStream :=
  ⟨[words.flatMap fun env => Text.Utf8.ofString env.toLine ++ [Framing.newline]], .closed⟩

theorem fits : ∀ env ∈ words, (Text.Utf8.ofString env.toLine).length + 1 ≤ maxLine := by
  decide +kernel

theorem deliverable : ∀ env ∈ words, env.Deliverable := by
  intro env h
  refine ⟨?_, ?_, fits env h, ?_⟩
  all_goals
    rcases List.mem_pair.1 h with rfl | rfl
  · rintro v (_ | ⟨_, ⟨⟩⟩)
    exact ⟨List.pairwise_singleton .., rfl, trivial⟩
  · nofun
  · decide
  · nofun
  · nofun
  · nofun

/-- The time of the leap second is one that is sent. -/
theorem isSent : ∀ t ∈ leap.time, t.IsSent := by decide

theorem payloadText_ne : Event.payloadText measured.event.reread.metric ≠
    Event.payloadText measured.event.metric := by
  decide +kernel

/-- Nothing that is read says the metric, and no time that is read is the leap second. -/
theorem lost {e : LogEntry} {entries : List LogEntry}
    (h : List.Forall₂ (Envelope.Entered 0 "a") words entries) (he : e ∈ entries) :
    ¬ measured.event.Reports e.lineClass e.text ∧ e.time ≠ leap.time := by
  obtain ⟨x, xs, hmeasured, hrest, rfl⟩ := List.forall₂_cons_left_iff.1 h
  obtain ⟨y, ys, hleap, hnil, rfl⟩ := List.forall₂_cons_left_iff.1 hrest
  cases hnil
  rcases List.mem_pair.1 he with rfl | rfl
  · refine ⟨fun hsays => ?_, by rw [hmeasured.time]; decide⟩
    obtain ⟨-, htext⟩ := (Event.reports_of_metric rfl).1 hsays
    obtain ⟨-, hsent⟩ := (Event.reports_of_metric rfl).1 hmeasured.reports
    exact payloadText_ne (hsent.symm.trans htext)
  · refine ⟨fun hsays => ?_, by rw [hleap.time]; decide⟩
    obtain ⟨hclass, -⟩ := (Event.reports_of_metric rfl).1 hsays
    have hstarts := hleap.reports
    rw [hclass] at hstarts
    generalize e.text = text at hstarts
    cases hstarts with
    | metric hk => cases hk

end Measured

/-- **Not all of it arrives as it was sent.** Where all that `delivered` asks for is so, the
consumer is done, and yet no line has the text of the metric, and none the time of the leap
second. -/
theorem not_delivered_as_said :
    ∃ (es : List Event) (c : Collector), Follows es c false ∧ (registered es).Nodup ∧
      Event.cancel ∉ es ∧
      (arrivals es)[0]? = some (.managed "a" Measured.output ⟨[], .closed⟩) ∧
      Measured.output.chunks.flatten =
        Measured.words.flatMap (fun env => Text.Utf8.ofString env.toLine ++ [Framing.newline]) ∧
      (∀ env ∈ Measured.words, env.Deliverable) ∧
      (∀ t ∈ Envelope.Returned.leap.time, t.IsSent) ∧
      c.consumer? 0 .output = none ∧
      ∀ e ∈ c.log.toList, e.index = 0 → e.lineClass ≠ .error →
        ¬ Envelope.Returned.measured.event.Reports e.lineClass e.text ∧
          e.time ≠ Envelope.Returned.leap.time := by
  have hoctets : Measured.output.chunks.flatten =
      Measured.words.flatMap fun env => Text.Utf8.ofString env.toLine ++ [Framing.newline] :=
    List.append_nil _
  obtain ⟨es, c, hrun, hdistinct, hcancel, hmanaged, hnone⟩ :=
    @exists_drained "a" Measured.output rfl
  obtain ⟨entries, hentries, hlog⟩ :=
    hrun.log_of_envelopes hdistinct hcancel hmanaged rfl hoctets Measured.deliverable hnone
  refine ⟨es, c, hrun, hdistinct, hcancel, hmanaged, hoctets, Measured.deliverable,
    Measured.isSent, hnone, fun e he hindex hclass => ?_⟩
  rcases mem_of_outputLog hlog he hindex hclass with hentry | rfl
  · exact Measured.lost hentries hentry
  · exact ⟨nofun, nofun⟩

end Collector

end Conductor
