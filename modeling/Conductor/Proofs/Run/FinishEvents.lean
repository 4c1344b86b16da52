import Conductor.Proofs.Run.ConsumerStep
/-!
# Runs — the verdict and the finish events

The state of a consumer of standard output is threaded through a loop that has four exits,
and through a classifier that looks at every line. What comes of it is a function of few
things: the outcomes of the finish events among the lines that were read, up to the first
that is unknown, and whether the consumer was stopped by a cancellation
(`Collector.verdictOn`). While the consumer reads, `Collector.Reading` says where it is;
the step in which it ends announces that verdict (`Reading.readOutput`, `Reading.quit`),
whatever the other consumers do, and whenever a cancellation falls. A consumer that ends has read its stream
through, up to the end or to that first line (`Collector.ReadThrough`), unless it was cut
short by a cancellation (`Collector.CutShort`); so where nothing is canceled the verdict is
that of the whole stream.
-/

namespace Conductor

/-! ## Finish events -/

/-- What a line of standard output says of how the instance finished: the outcome of a finish
event, or the text in its place that is none. -/
def FramedLine.finish? : FramedLine → Option (Except String Outcome)
  | .text s =>
    match Envelope.parse (Text.Utf8.ofString s) with
    | .ok env => if env.event.kind = .finish then some env.event.typedOutcome else none
    | .error _ => none
  | .oversized _ => none

/-- The outcomes that lines say. -/
def FramedLine.outcomes (ls : List FramedLine) : List Outcome :=
  ls.filterMap fun l => l.finish?.bind Except.toOption

/-- The lines before the first finish event whose outcome is unknown or missing. -/
def FramedLine.trusted (ls : List FramedLine) : List FramedLine :=
  ls.takeWhile fun l => l.finish?.all Except.isOk

/-- The verdict that outcomes come to, where the consumer was stopped by a cancellation or
not. -/
def Verdict.ofOutcomes (outcomes : List Outcome) (stopped : Bool) : Verdict :=
  if .failed ∈ outcomes ∨ .crashed ∈ outcomes then .failed
  else if .ok ∈ outcomes then .passed
  else if stopped then .canceled
  else .incomplete

namespace FramedLine

variable {l : FramedLine} {ls : List FramedLine}

/-- **A line means** what its finish event says, and nothing if it has none. -/
theorem effect_eq (l : FramedLine) : l.classified.effect =
    match l.finish? with
    | some (.ok .ok) => .passes
    | some (.ok .failed) => .fails
    | some (.ok .crashed) => .fails
    | some (.error _) => .stops
    | none => .none := by
  cases l with
  | oversized n => rfl
  | text s =>
    rw [classified, classify, finish?]
    cases Envelope.parse (Text.Utf8.ofString s) with
    | error e => rfl
    | ok env =>
      dsimp only [Envelope.classify]
      cases env.event.kind with
      | finish =>
        rw [if_pos rfl]
        rcases env.event.typedOutcome with _ | (_ | _ | _) <;> rfl
      | _ => rfl

/-- What stops a consumer is a finish event with an outcome that is none. -/
theorem stops_iff : l.Stops ↔ ∃ s, l.finish? = some (.error s) := by
  rw [Stops, effect_eq]
  rcases l.finish? with _ | _ | (_ | _ | _) <;> simp

theorem effect_eq_fails : l.classified.effect = .fails ↔
    l.finish? = some (.ok .failed) ∨ l.finish? = some (.ok .crashed) := by
  rw [effect_eq]
  rcases l.finish? with _ | _ | (_ | _ | _) <;> simp

theorem effect_eq_passes : l.classified.effect = .passes ↔ l.finish? = some (.ok .ok) := by
  rw [effect_eq]
  rcases l.finish? with _ | _ | (_ | _ | _) <;> simp

/-- A line is one to go on behind if it does not stop. -/
theorem all_isOk_iff : l.finish?.all Except.isOk = true ↔ ¬ l.Stops := by
  rw [stops_iff]
  rcases l.finish? with _ | _ | _ <;> simp [Except.isOk, Except.toBool]

theorem mem_outcomes {o : Outcome} :
    o ∈ outcomes ls ↔ ∃ l ∈ ls, l.finish? = some (.ok o) := by
  refine List.mem_filterMap.trans (exists_congr fun l => and_congr_right fun _ => ?_)
  rcases l.finish? with _ | _ | _ <;> simp [Except.toOption]

/-- Lines none of which stops are trusted, -/
theorem trusted_eq_self (h : ∀ l ∈ ls, ¬ l.Stops) : trusted ls = ls :=
  List.takeWhile_eq_self_iff.2 fun l hl => all_isOk_iff.2 (h l hl)

/-- and one behind them that does stop says no outcome. -/
theorem trusted_concat (h : ∀ l ∈ ls, ¬ l.Stops) (hl : l.Stops) :
    trusted (ls ++ [l]) = ls := by
  have hcut : [l].takeWhile (fun l => l.finish?.all Except.isOk) = [] :=
    List.takeWhile_cons_of_neg (by simpa [all_isOk_iff] using hl)
  rw [trusted, List.takeWhile_append_of_pos fun x hx => all_isOk_iff.2 (h x hx), hcut,
    List.append_nil]

/-- The state of an instance behind lines of its standard output. -/
def state (ls : List FramedLine) : Verdict :=
  ls.foldl (fun v l => v.after l.classified.effect) .running

theorem state_concat : state (ls ++ [l]) = (state ls).after l.classified.effect := by
  rw [state, List.foldl_append]
  rfl

/-- **The state is the fold of the outcomes.** A failure is never taken back, and a success
only by a failure. -/
theorem state_eq (ls : List FramedLine) : state ls =
    if .failed ∈ outcomes ls ∨ .crashed ∈ outcomes ls then .failed
    else if .ok ∈ outcomes ls then .passed
    else .running := by
  rw [state, Verdict.foldl_after (.inl rfl)]
  simp only [effect_eq_fails, effect_eq_passes, mem_outcomes, reduceCtorEq, false_or, and_or_left,
    exists_or]

/-- A line that stops leaves the state as it is. -/
theorem state_concat_of_stops (hl : l.Stops) : state (ls ++ [l]) = state ls := by
  rw [state_concat, show l.classified.effect = .stops from hl, Verdict.after]

theorem isSaid_state (ls : List FramedLine) : Collector.IsSaid (state ls) := by
  rw [state_eq]
  split
  · exact .inr (.inr rfl)
  · split
    · exact .inr (.inl rfl)
    · exact .inl rfl

/-- The verdict of a state that is settled where standard output ends. -/
theorem settled_state (ls : List FramedLine) :
    (state ls).settled = .ofOutcomes (outcomes ls) false := by
  rw [state_eq, Verdict.ofOutcomes]
  split
  · rfl
  · split <;> rfl

/-- And where a cancellation stops the consumer. -/
theorem settled_state_of_quit (ls : List FramedLine) :
    (if state ls = .running then .canceled else state ls).settled =
      .ofOutcomes (outcomes ls) true := by
  rw [state_eq, Verdict.ofOutcomes]
  split
  · rfl
  · split <;> rfl

end FramedLine

namespace Collector

deriving instance DecidableEq for Event

open FramedLine

variable {es : List Event} {c c' : Collector} {k : Consumer} {canceled : Bool} {a : Action}
  {said : List Announcement} {i : Nat} {id : String} {output errors : OctetStream}
  {read : List FramedLine}

/-! ## How far a consumer has come -/

/-- How often the standard output of an instance was read. -/
def readsOf (es : List Event) (i : Nat) : Nat := es.count (.act (.read i .output))

/-- The consumer of the standard output of an instance was stopped by a cancellation. -/
def stopped (es : List Event) (i : Nat) : Bool := decide (.act (.quit i .output) ∈ es)

/-- The lines of standard output that were read. -/
def linesRead (es : List Event) (i : Nat) (output : OctetStream) : List FramedLine :=
  output.transcript.lines.take (readsOf es i)

/-- **The verdict on an instance** by what was read of its standard output. -/
def verdictOn (es : List Event) (i : Nat) (output : OctetStream) : Verdict :=
  .ofOutcomes (outcomes (trusted (linesRead es i output))) (stopped es i)

/-- The entries of standard output that is done: one for each line that was read, one for the
reason why it could not be read further if the consumer came to know it, and a closing one
where the instance is incomplete. -/
def entriesRead (es : List Event) (i : Nat) (id : String) (output : OctetStream) :
    List LogEntry :=
  (linesRead es i output).map (Transcript.lineEntry i id) ++
    (if output.transcript.lines.length < readsOf es i then
      output.transcript.flaw.toList.map (Transcript.flawEntry i id) else []) ++
    if verdictOn es i output = .incomplete then [Transcript.closingEntry i id] else []

/-- A consumer has read its stream through: up to the first line that stops it, or to the end.
A stream that stays open has an end only once it is closed from outside. -/
def ReadThrough (es : List Event) (i : Nat) (output : OctetStream) : Prop :=
  (∃ j l s, output.transcript.lines[j]? = some l ∧ l.finish? = some (.error s) ∧
    readsOf es i = j + 1) ∨
  readsOf es i = output.transcript.lines.length + 1 ∧
    (output.ending = .silent → Event.hangUp ∈ es)

/-- A consumer was cut short by a cancellation, which came behind the events `before` and which
the consumer noticed behind the events `between`. It has read lines till then, and nothing
more. -/
structure CutShort (es before between : List Event) (i : Nat) (output : OctetStream) : Prop where
  course : ∃ after, es = before ++ .cancel :: (between ++ .act (.quit i .output) :: after)
  first : Event.cancel ∉ before
  reads : readsOf es i = readsOf before i + readsOf between i
  within : readsOf es i ≤ output.transcript.lines.length

/-- How a consumer comes to its end: it is stopped, or has read its stream through. -/
def Ended (es : List Event) (i : Nat) (output : OctetStream) : Prop :=
  if stopped es i then ∃ before between, CutShort es before between i output
  else ReadThrough es i output

/-- **A consumer of standard output reads**: some lines are behind it, none of which stops,
and its state is theirs. -/
structure Reading (es : List Event) (i : Nat) (id : String) (output : OctetStream)
    (c : Collector) (k : Consumer) (read : List FramedLine) : Prop where
  consumer : c.consumer? i .output = some k
  instanceId : k.instanceId = id
  length : read.length = readsOf es i
  transcript : output.transcript = ⟨read ++ k.stream.transcript.lines, k.stream.transcript.flaw⟩
  unstopped : ∀ l ∈ read, ¬ l.Stops
  state : k.state = FramedLine.state read
  log : c.outputLog i = read.map (Transcript.lineEntry i id)
  uncanceled : stopped es i = false
  /-- Nothing but a hang-up changes how the stream ends. -/
  ending : k.stream.ending = output.ending ∨ Event.hangUp ∈ es

/-- **The standard output of an instance is done**, with the entries and the verdict that it
was to have. -/
structure Done (es : List Event) (i : Nat) (id : String) (output : OctetStream)
    (c : Collector) : Prop where
  consumer : c.consumer? i .output = none
  log : c.outputLog i = entriesRead es i id output
  verdict : (registered es).Nodup → c.verdicts.get? id = some (verdictOn es i output)
  last : ∀ j l, output.transcript.lines[j]? = some l → l.Stops → readsOf es i ≤ j + 1
  ended : Ended es i output

/-! ## Counting events -/

theorem readsOf_concat (es : List Event) (e : Event) (i : Nat) :
    readsOf (es ++ [e]) i = readsOf es i + if e = .act (.read i .output) then 1 else 0 := by
  rw [readsOf, List.count_append, List.count_singleton, readsOf]
  simp

theorem stopped_concat (es : List Event) (e : Event) (i : Nat) :
    stopped (es ++ [e]) i = (stopped es i || decide (e = .act (.quit i .output))) := by
  simp only [stopped, List.mem_append, List.mem_singleton, Bool.decide_or, eq_comm (a := e)]

theorem readsOf_concat_of_ne {e : Event} (h : e ≠ .act (.read i .output)) :
    readsOf (es ++ [e]) i = readsOf es i := by
  rw [readsOf_concat, if_neg h, Nat.add_zero]

theorem stopped_concat_of_ne {e : Event} (h : e ≠ .act (.quit i .output)) :
    stopped (es ++ [e]) i = stopped es i := by
  rw [stopped_concat, decide_eq_false h, Bool.or_false]

/-! ## The end of a stream -/

/-- How the consumer came to its end stays, whatever happens elsewhere. -/
theorem Ended.elsewhere (h : Ended es i output) {e : Event} (hread : e ≠ .act (.read i .output))
    (hquit : e ≠ .act (.quit i .output)) : Ended (es ++ [e]) i output := by
  unfold Ended at h ⊢
  rw [stopped_concat_of_ne hquit]
  split at h
  · rename_i hstopped
    rw [if_pos hstopped]
    obtain ⟨before, between, ⟨after, hcourse⟩, hfirst, hreads, hwithin⟩ := h
    refine ⟨before, between, ⟨after ++ [e], by simp [hcourse]⟩, hfirst, ?_, ?_⟩
    · rw [readsOf_concat_of_ne hread, hreads]
    · rwa [readsOf_concat_of_ne hread]
  · rename_i hstopped
    rw [if_neg hstopped]
    rcases h with ⟨j, l, s, hl, hs, hreads⟩ | ⟨hreads, hsilent⟩
    · exact .inl ⟨j, l, s, hl, hs, by rw [readsOf_concat_of_ne hread, hreads]⟩
    · exact .inr ⟨by rw [readsOf_concat_of_ne hread, hreads],
        fun hopen => List.mem_append_left _ (hsilent hopen)⟩

/-! ## A consumer and its instance -/

namespace Reading

/-- Lines that stop are before it. -/
theorem length_le (h : Reading es i id output c k read) {j : Nat} {l : FramedLine}
    (hl : output.transcript.lines[j]? = some l) (hstops : l.Stops) : read.length ≤ j := by
  by_contra hlt
  rw [h.transcript, List.getElem?_append_left (by omega)] at hl
  exact h.unstopped l (List.mem_of_getElem? hl) hstops

/-- What happens elsewhere changes nothing. -/
theorem elsewhere (h : Reading es i id output c k read) {e : Event}
    (hread : e ≠ .act (.read i .output)) (hquit : e ≠ .act (.quit i .output)) {k' : Consumer}
    (hconsumer : c'.consumer? i .output = some k')
    (hplace : k'.instanceId = k.instanceId ∧ k'.state = k.state ∧
      k'.stream.transcript = k.stream.transcript)
    (hending : k'.stream.ending = k.stream.ending ∨ e = .hangUp)
    (hlog : c'.outputLog i = c.outputLog i) :
    Reading (es ++ [e]) i id output c' k' read where
  consumer := hconsumer
  instanceId := hplace.1.trans h.instanceId
  length := h.length.trans (readsOf_concat_of_ne hread).symm
  transcript := by rw [hplace.2.2]; exact h.transcript
  unstopped := h.unstopped
  state := hplace.2.1.trans h.state
  log := hlog.trans h.log
  uncanceled := (stopped_concat_of_ne hquit).trans h.uncanceled
  ending := by
    rcases hending with hsame | rfl
    · rw [hsame]
      exact h.ending.imp_right (List.mem_append_left _)
    · exact .inr (by simp)

/-- A line that does not stop is taken in. -/
theorem goOn (h : Reading es i id output c k read) {l : FramedLine} {rest : OctetStream}
    (hline : k.stream.readLine = .line l rest) (hl : ¬ l.Stops)
    (hc' : c' = (c.record k.index k.instanceId l.classified.time l.classified.lineClass
      l.classified.text).update
        { k with state := k.state.after l.classified.effect, stream := rest }) :
    Reading (es ++ [.act (.read i .output)]) i id output c'
      { k with state := k.state.after l.classified.effect, stream := rest } (read ++ [l]) where
  consumer := by
    obtain ⟨-, rfl, hc⟩ := mem_of_consumer? h.consumer
    have hk : c.consumer? k.index k.channel = some k := by rw [hc]; exact h.consumer
    subst hc'
    exact (consumer?_update (k := { k with
      state := k.state.after l.classified.effect, stream := rest }) hk).trans
        (if_pos (by rw [hc]))
  instanceId := h.instanceId
  length := by rw [readsOf_concat, if_pos rfl, List.length_append, h.length]; rfl
  transcript := by
    rw [h.transcript, OctetStream.transcript_of_line hline, List.append_assoc]
    rfl
  unstopped := by
    intro x hx
    rcases List.mem_append.1 hx with hx | hx
    · exact h.unstopped x hx
    · exact List.mem_singleton.1 hx ▸ hl
  state := by rw [state_concat, ← h.state]
  log := by
    obtain ⟨-, hi, -⟩ := mem_of_consumer? h.consumer
    rw [List.map_append, ← h.log]
    refine outputLog_append
      (by simp [hc', update, record, Transcript.lineEntry, hi, h.instanceId]) ?_
    simp [Transcript.lineEntry, classified_ne_error]
  uncanceled := (stopped_concat_of_ne (by simp)).trans h.uncanceled
  ending := (h.ending.imp_left (OctetStream.ending_of_line hline).trans).imp_right
    (List.mem_append_left _)

/-- The end of a stream that stayed open is that of one that was closed from outside. -/
theorem readThrough (h : Reading es i id output c k read) (hopen : k.stream.ending ≠ .silent)
    (hlines : output.transcript.lines = read) :
    ReadThrough (es ++ [.act (.read i .output)]) i output := by
  refine .inr ⟨by rw [readsOf_concat, if_pos rfl, hlines, h.length], fun hsilent => ?_⟩
  rcases h.ending with hsame | hangUp
  · exact absurd (hsame.trans hsilent) hopen
  · exact List.mem_append_left _ hangUp

/-- **A consumer that settles** on the verdict, with the entries that were left. -/
theorem settles (h : Reading es i id output c k read) {e : Event} {d : Collector}
    {state : Verdict} (more : List LogEntry) (step : (c', said) = d.settle k state)
    (hstate : state ≠ .incomplete)
    (hverdict : state.settled = verdictOn (es ++ [e]) i output)
    (hlog : d.log.toList = c.log.toList ++ more)
    (hmore : (linesRead (es ++ [e]) i output).map (Transcript.lineEntry i id) ++
      (if output.transcript.lines.length < readsOf (es ++ [e]) i then
        output.transcript.flaw.toList.map (Transcript.flawEntry i id) else []) =
      read.map (Transcript.lineEntry i id) ++ more)
    (hended : Ended (es ++ [e]) i output) :
    said = [(id, verdictOn (es ++ [e]) i output)] ∧
      c'.verdicts.get? id = some (verdictOn (es ++ [e]) i output) ∧
      Done (es ++ [e]) i id output c' := by
  obtain ⟨-, hi, hc⟩ := mem_of_consumer? h.consumer
  obtain ⟨hlog', hconsumers', hverdicts', hsaid⟩ := settle_eq (c := d) (k := k) hstate
  rw [← step, hverdict, h.instanceId] at hsaid hverdicts'
  rw [← step, hverdict, h.instanceId, hi] at hlog'
  rw [← step] at hconsumers'
  have hget : c'.verdicts.get? id = some (verdictOn (es ++ [e]) i output) := by
    rw [hverdicts', Table.get?_insert_self]
  refine ⟨hsaid, hget, ?_, ?_, fun _ => hget, fun j l hl hstops => ?_, hended⟩
  · rw [consumer?, hconsumers', ← consumer?, consumer?_drop, if_pos (by rw [hi, hc])]
  · have hclass : ∀ x ∈ more, x.index = i ∧ x.lineClass ≠ .error := by
      intro x hx
      have hx := List.mem_append_right (read.map (Transcript.lineEntry i id)) hx
      rw [← hmore, List.mem_append] at hx
      rcases hx with hx | hx
      · obtain ⟨l, -, rfl⟩ := List.mem_map.1 hx
        exact ⟨rfl, classified_ne_error l⟩
      · split at hx
        · obtain ⟨reason, -, rfl⟩ := List.mem_map.1 hx
          simp [Transcript.flawEntry]
        · cases hx
    rw [entriesRead, hmore, ← h.log, ← outputLog_append hlog hclass]
    refine outputLog_append hlog' fun x hx => ?_
    split at hx
    · cases List.mem_singleton.1 hx
      simp [Transcript.closingEntry]
    · cases hx
  · have hlength := h.length_le hl hstops
    rw [h.length] at hlength
    rw [readsOf_concat]
    split <;> omega

/-- The state of a consumer is none that is settled. -/
theorem after_ne_incomplete (h : Reading es i id output c k read) (e : LineEffect) :
    k.state.after e ≠ .incomplete := by
  rw [h.state]
  exact ((isSaid_state read).after e).ne_incomplete

/-- Reading on is not what stops it. -/
theorem not_stopped (h : Reading es i id output c k read) :
    stopped (es ++ [.act (.read i .output)]) i = false :=
  (stopped_concat_of_ne (by simp)).trans h.uncanceled

theorem ended_of_readThrough (h : Reading es i id output c k read)
    (hthrough : ReadThrough (es ++ [.act (.read i .output)]) i output) :
    Ended (es ++ [.act (.read i .output)]) i output := by
  rw [Ended, h.not_stopped]
  exact hthrough

/-- A consumer that reads a line which stops it is done. That line says no outcome. -/
theorem stops (h : Reading es i id output c k read) {l : FramedLine} {rest : OctetStream}
    (hline : k.stream.readLine = .line l rest) (hl : l.Stops)
    (step : (c', said) = (c.record k.index k.instanceId l.classified.time l.classified.lineClass
      l.classified.text).settle k (k.state.after l.classified.effect)) :
    said = [(id, verdictOn (es ++ [.act (.read i .output)]) i output)] ∧
      c'.verdicts.get? id = some (verdictOn (es ++ [.act (.read i .output)]) i output) ∧
      Done (es ++ [.act (.read i .output)]) i id output c' := by
  obtain ⟨-, hi, -⟩ := mem_of_consumer? h.consumer
  have hreads : readsOf (es ++ [.act (.read i .output)]) i = read.length + 1 := by
    rw [readsOf_concat, if_pos rfl, h.length]
  have hlines : linesRead (es ++ [.act (.read i .output)]) i output = read ++ [l] := by
    rw [linesRead, hreads, h.transcript, OctetStream.transcript_of_line hline,
      List.append_cons]
    exact List.take_left' (by simp)
  refine h.settles [Transcript.lineEntry i id l] step (h.after_ne_incomplete _) ?_ ?_ ?_
    (h.ended_of_readThrough ?_)
  · rw [verdictOn, hlines, h.not_stopped, trusted_concat h.unstopped hl, ← settled_state, h.state,
      ← state_concat, state_concat_of_stops hl]
  · simp [record, Transcript.lineEntry, hi, h.instanceId]
  · rw [hlines, if_neg, List.append_nil, List.map_append]
    · rfl
    · rw [hreads, h.transcript, OctetStream.transcript_of_line hline]
      simp
  · obtain ⟨s, hs⟩ := stops_iff.1 hl
    refine .inl ⟨read.length, l, s, ?_, hs, hreads⟩
    rw [h.transcript, OctetStream.transcript_of_line hline,
      List.getElem?_append_right (Nat.le_refl _), Nat.sub_self]
    rfl

/-- A consumer that finds no more lines is done, and enters the reason if there is one. -/
theorem ends (h : Reading es i id output c k read) {d : Collector} {flaw : Option String}
    (hopen : k.stream.ending ≠ .silent) (htranscript : output.transcript = ⟨read, flaw⟩)
    (step : (c', said) = d.settle k k.state)
    (hlog : d.log.toList = c.log.toList ++ flaw.toList.map (Transcript.flawEntry i id)) :
    said = [(id, verdictOn (es ++ [.act (.read i .output)]) i output)] ∧
      c'.verdicts.get? id = some (verdictOn (es ++ [.act (.read i .output)]) i output) ∧
      Done (es ++ [.act (.read i .output)]) i id output c' := by
  have hreads : readsOf (es ++ [.act (.read i .output)]) i = read.length + 1 := by
    rw [readsOf_concat, if_pos rfl, h.length]
  have hlines : linesRead (es ++ [.act (.read i .output)]) i output = read := by
    rw [linesRead, hreads, htranscript, List.take_of_length_le (Nat.le_succ _)]
  refine h.settles _ step (h.after_ne_incomplete .none) ?_ hlog ?_
    (h.ended_of_readThrough (h.readThrough hopen (by rw [htranscript])))
  · rw [verdictOn, hlines, h.not_stopped, trusted_eq_self h.unstopped, ← settled_state, h.state]
  · simp [hlines, htranscript, hreads]

/-- **The step lemma**: a consumer that reads on goes on, or is done and announces the
verdict. -/
theorem readOutput (h : Reading es i id output c k read)
    (step : c.readOutput k = some (c', said)) :
    (∃ k' l, said = [] ∧
      Reading (es ++ [.act (.read i .output)]) i id output c' k' (read ++ [l])) ∨
    said = [(id, verdictOn (es ++ [.act (.read i .output)]) i output)] ∧
      c'.verdicts.get? id = some (verdictOn (es ++ [.act (.read i .output)]) i output) ∧
      Done (es ++ [.act (.read i .output)]) i id output c' := by
  obtain ⟨-, hi, -⟩ := mem_of_consumer? h.consumer
  rcases readOutput_cases step with ⟨l, rest, hline, hl, rfl, hc'⟩ | ⟨l, rest, hline, hl, heq⟩ |
    ⟨hend, heq⟩ | ⟨reason, hbroken, heq⟩
  · exact .inl ⟨_, l, rfl, h.goOn hline hl hc'⟩
  · exact .inr (h.stops hline hl heq)
  · have htranscript : output.transcript = ⟨read, none⟩ := by
      rw [h.transcript, OctetStream.transcript_of_ended hend, List.append_nil]
    exact .inr (h.ends (by simp [OctetStream.ending_of_ended hend]) htranscript heq
      (List.append_nil _).symm)
  · have htranscript : output.transcript = ⟨read, some reason⟩ := by
      rw [h.transcript, OctetStream.transcript_of_broken hbroken, List.append_nil]
    exact .inr (h.ends (by simp [OctetStream.ending_of_broken hbroken]) htranscript heq
      (by simp [note, record, Transcript.flawEntry, hi, h.instanceId]))

/-- And one that is stopped is done. -/
theorem quit (h : Reading es i id output c k read) (hcancel : Event.cancel ∈ es)
    (step : (c', said) = c.settle k (if k.state = .running then .canceled else k.state)) :
    said = [(id, verdictOn (es ++ [.act (.quit i .output)]) i output)] ∧
      c'.verdicts.get? id = some (verdictOn (es ++ [.act (.quit i .output)]) i output) ∧
      Done (es ++ [.act (.quit i .output)]) i id output c' := by
  have hreads : readsOf (es ++ [.act (.quit i .output)]) i = read.length := by
    rw [readsOf_concat_of_ne (by simp), h.length]
  have hlines : linesRead (es ++ [.act (.quit i .output)]) i output = read := by
    rw [linesRead, hreads, h.transcript]
    exact List.take_left
  have hstopped : stopped (es ++ [.act (.quit i .output)]) i = true := by
    rw [stopped_concat, decide_eq_true rfl, Bool.or_true]
  refine h.settles [] step ?_ ?_ (List.append_nil _).symm ?_ ?_
  · split
    · nofun
    · rw [h.state]
      exact (isSaid_state read).ne_incomplete
  · rw [h.state, settled_state_of_quit, verdictOn, hlines, trusted_eq_self h.unstopped,
      hstopped]
  · rw [hlines, if_neg]
    rw [hreads, h.transcript]
    simp
  · rw [Ended, if_pos hstopped]
    obtain ⟨before, between, hcourse, hfirst⟩ := List.eq_append_cons_of_mem hcancel
    refine ⟨before, between, ⟨[], by simp [hcourse]⟩, hfirst, ?_, ?_⟩
    · rw [readsOf_concat_of_ne (by simp), hcourse, readsOf, List.count_append,
        List.count_cons_of_ne (by simp), readsOf, readsOf]
    · rw [hreads, h.transcript]
      simp

end Reading

/-- What happens elsewhere changes nothing in what is done. -/
theorem Done.elsewhere (h : Done es i id output c) {e : Event}
    (hread : e ≠ .act (.read i .output)) (hquit : e ≠ .act (.quit i .output))
    (hconsumer : c'.consumer? i .output = none) (hlog : c'.outputLog i = c.outputLog i)
    (hverdict : (registered (es ++ [e])).Nodup → c'.verdicts.get? id = c.verdicts.get? id) :
    Done (es ++ [e]) i id output c' := by
  have hlines : linesRead (es ++ [e]) i output = linesRead es i output := by
    rw [linesRead, readsOf_concat_of_ne hread, linesRead]
  have hon : verdictOn (es ++ [e]) i output = verdictOn es i output := by
    rw [verdictOn, hlines, stopped_concat_of_ne hquit, verdictOn]
  refine ⟨hconsumer, ?_, fun distinct => ?_, ?_, h.ended.elsewhere hread hquit⟩
  · rw [hlog, h.log, entriesRead, entriesRead, hlines, hon, readsOf_concat_of_ne hread]
  · rw [hverdict distinct, hon]
    rw [registered_append] at distinct
    exact h.verdict (List.nodup_append.1 distinct).1
  · rw [readsOf_concat_of_ne hread]
    exact h.last

/-! ## Courses -/

/-- Nothing is there of an instance that is not registered. -/
theorem Follows.fresh (h : Follows es c canceled) (hi : c.count ≤ i) :
    c.consumer? i .output = none ∧ c.outputLog i = [] ∧ readsOf es i = 0 ∧
      stopped es i = false := by
  induction h with
  | start => exact ⟨rfl, rfl, rfl, rfl⟩
  | @act es c c' canceled a said _ step ih =>
    have hcount := count_act step
    obtain ⟨hconsumer, hlog, hreads, hstopped⟩ := ih (by omega)
    have hnew : a.arrival? = none ∨ i ≠ c.count := by
      cases ha : a.arrival? with
      | none => exact .inl rfl
      | some x =>
        rw [ha, Option.toList_some, List.length_singleton] at hcount
        exact .inr (by omega)
    rcases act_cases step hnew with ⟨hread, hquit, hconsumer', hlog'⟩ | ⟨k, hk, -⟩
    · exact ⟨hconsumer'.trans hconsumer, hlog'.trans hlog,
        (readsOf_concat_of_ne (by simpa using hread)).trans hreads,
        (stopped_concat_of_ne (by simpa using hquit)).trans hstopped⟩
    · rw [hconsumer] at hk
      cases hk
  | cancel _ ih =>
    obtain ⟨hconsumer, hlog, hreads, hstopped⟩ := ih hi
    exact ⟨hconsumer, hlog, (readsOf_concat_of_ne (by simp)).trans hreads,
      (stopped_concat_of_ne (by simp)).trans hstopped⟩
  | hangUp _ ih =>
    obtain ⟨hconsumer, hlog, hreads, hstopped⟩ := ih hi
    exact ⟨by rw [consumer?_closeStreams, hconsumer, Option.map_none], hlog,
      (readsOf_concat_of_ne (by simp)).trans hreads,
      (stopped_concat_of_ne (by simp)).trans hstopped⟩

/-- What an event makes of a collector, if it can happen. -/
def Event.next (e : Event) (s : Collector × Bool) : Option (Collector × Bool) :=
  match e with
  | .act a => (s.1.act s.2 a).map fun r => (r.1, s.2)
  | .cancel => some (s.1, true)
  | .hangUp => some (s.1.closeStreams, s.2)

/-- The collector behind a course of events, if they can happen one after the other, and
whether the run is canceled by then. -/
def play (es : List Event) : Option (Collector × Bool) :=
  es.foldlM (fun s e => e.next s) (empty, false)

namespace Retracted

/-- A finish event on a line of its own. -/
def finish (outcome : String) : String :=
  "\x7b\"event\":\x7b\"type\":\"finish\",\"outcome\":\"" ++ outcome ++ "\"\x7d\x7d\n"

/-- An instance that failed, says after that that all is well, and has more to say. -/
def words : OctetStream := .ofText (finish "failed" ++ finish "ok" ++ finish "odd")

/-- It is canceled before that is read. -/
def course : List Event :=
  [.act (.manage "a" words ⟨[], .silent⟩), .act (.read 0 .output), .act (.read 0 .output),
    .cancel, .act (.quit 0 .output)]

/-- An instance that says something else before it finishes, and stays. -/
def noise : OctetStream :=
  ⟨[Text.Utf8.ofString ("started\n" ++ finish "ok" ++ "over")], .silent⟩

/-- It is read until nothing more comes, and to the end once it has been closed. -/
def quiet : List Event :=
  [.act (.manage "a" noise ⟨[], .silent⟩), .act (.read 0 .output), .act (.read 0 .output),
    .hangUp, .act (.read 0 .output), .act (.read 0 .output)]

end Retracted

end Collector

end Conductor
