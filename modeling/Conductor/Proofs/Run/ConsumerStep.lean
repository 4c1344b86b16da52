import Conductor.Proofs.Run.Delivery
/-!
# Runs — what a step touches

A consumer writes to the log under the index of its instance and in the class of its
stream, moves no other consumer, and puts nothing in the table but the verdict that it
announces (`Collector.Touches`). So to the standard output of an instance there are two
kinds of steps (`Collector.act_cases`): those of its own consumer, and those that leave
the consumer and its entries as they are.
-/

namespace Conductor

namespace Collector

variable {es : List Event} {c c' d : Collector} {k k' : Consumer} {canceled : Bool} {a : Action}
  {said : List Announcement} {i : Nat} {channel : Channel} {v : Verdict} {id text : String}
  {time : Option Instant} {cls : LineClass}

/-- The entries that the standard output of an instance has made. -/
def outputLog (c : Collector) (i : Nat) : List LogEntry :=
  c.log.toList.filter fun e => e.index = i ∧ e.lineClass ≠ .error

/-- Entries of standard output are put behind those there are. -/
theorem outputLog_append {more : List LogEntry} (hlog : c'.log.toList = c.log.toList ++ more)
    (hmore : ∀ e ∈ more, e.index = i ∧ e.lineClass ≠ .error) :
    c'.outputLog i = c.outputLog i ++ more := by
  rw [outputLog, hlog, List.filter_append, outputLog,
    List.filter_eq_self.2 fun e he => decide_eq_true (hmore e he)]

/-- **What the step of a consumer touches**, and what it says. -/
structure Touches (c : Collector) (k : Consumer) (c' : Collector) (said : List Announcement) :
    Prop where
  count : c'.count = c.count
  entries : ∃ more, c'.log.toList = c.log.toList ++ more ∧
    ∀ e ∈ more, e.index = k.index ∧ (e.lineClass = .error ↔ k.channel = .errors)
  others : ∀ i channel, (i, channel) ≠ (k.index, k.channel) →
    c'.consumer? i channel = c.consumer? i channel
  verdicts : c'.verdicts = said.foldl (fun t x => t.insert x.1 x.2) c.verdicts
  /-- Only a verdict that is final is announced, by standard output. -/
  said : said = [] ∨ ∃ v, said = [(k.instanceId, v)] ∧ v ≠ .running ∧ k.channel = .output

/-! ## One consumer -/

/-- **Reading on**, a consumer of standard output takes in a line and stays, or takes in one
that stops it, or comes to the end of what it can read. -/
theorem readOutput_cases (step : c.readOutput k = some (c', said)) :
    (∃ l rest, k.stream.readLine = .line l rest ∧ ¬ l.Stops ∧ said = [] ∧
      c' = (c.record k.index k.instanceId l.classified.time l.classified.lineClass
        l.classified.text).update
          { k with state := k.state.after l.classified.effect, stream := rest }) ∨
    (∃ l rest, k.stream.readLine = .line l rest ∧ l.Stops ∧
      (c', said) = (c.record k.index k.instanceId l.classified.time l.classified.lineClass
        l.classified.text).settle k (k.state.after l.classified.effect)) ∨
    (k.stream.readLine = .ended ∧ (c', said) = c.settle k k.state) ∨
    ∃ reason, k.stream.readLine = .broken reason ∧
      (c', said) = (c.note k .internalError ("stdout error: " ++ reason)).settle k k.state := by
  unfold Collector.readOutput at step
  split at step
  · rename_i s rest hread
    dsimp only at step
    split at step
    · rename_i hstops
      exact .inr (.inl ⟨.text s, rest, hread, hstops, (Option.some.inj step).symm⟩)
    · rename_i hstops
      cases step
      exact .inl ⟨.text s, rest, hread, hstops, rfl, rfl⟩
  · rename_i n rest hread
    cases step
    exact .inl ⟨.oversized n, rest, hread, nofun, rfl, rfl⟩
  · rename_i hread
    exact .inr (.inr (.inl ⟨hread, (Option.some.inj step).symm⟩))
  · rename_i reason hread
    exact .inr (.inr (.inr ⟨reason, hread, (Option.some.inj step).symm⟩))
  · cases step

namespace Touches

/-- A consumer touches nothing that it did not touch after entering lines of its own. -/
theorem after_record (h : Touches (c.record k.index k.instanceId time cls text) k c' said)
    (hcls : cls = .error ↔ k.channel = .errors) : Touches c k c' said where
  count := h.count
  entries := by
    obtain ⟨more, hlog, hmore⟩ := h.entries
    refine ⟨⟨k.index, k.instanceId, time, cls, text⟩ :: more, by simp [hlog, record], ?_⟩
    exact List.forall_mem_cons.2 ⟨⟨rfl, hcls⟩, hmore⟩
  others := h.others
  verdicts := h.verdicts
  said := h.said

/-- Reading on touches nothing but the consumer. -/
theorem update (hk : c.consumer? k.index k.channel = some k) (state : Verdict)
    (stream : OctetStream) : Touches c k (c.update { k with state, stream }) [] where
  count := rfl
  entries := ⟨[], (List.append_nil _).symm, by simp⟩
  others i channel hne := by
    rw [consumer?_update (k := { k with state, stream }) hk, if_neg hne]
  verdicts := rfl
  said := .inl rfl

/-- Nor does its end. -/
theorem drop : Touches c k (c.drop k) [] where
  count := rfl
  entries := ⟨[], (List.append_nil _).symm, by simp⟩
  others i channel hne := by rw [consumer?_drop, if_neg hne]
  verdicts := rfl
  said := .inl rfl

/-- A consumer of standard output gives its instance the verdict, and is done. -/
theorem settle (hc : k.channel = .output) : Touches c k (c.settle k v).1 (c.settle k v).2 := by
  have assigned : ∀ {c : Collector} {v : Verdict}, v ≠ .running →
      Touches c k ((c.drop k).assign k.instanceId v).1 ((c.drop k).assign k.instanceId v).2 :=
    fun {c v} hv =>
      { Touches.drop (c := c) (k := k) with verdicts := rfl, said := .inr ⟨v, rfl, hv, hc⟩ }
  unfold Collector.settle
  split
  · exact (assigned (c := c.note k .incomplete "") (by decide)).after_record (by simp [hc])
  · exact assigned ‹_›

/-- **A consumer that reads on**. -/
theorem read (hk : c.consumer? k.index k.channel = some k) (step : c.read k = some (c', said)) :
    Touches c k c' said := by
  unfold Collector.read at step
  split at step
  · rename_i hc
    obtain ⟨d, hd, heq⟩ := Option.map_eq_some_iff.1 step
    cases heq
    unfold Collector.readErrors at hd
    split at hd
    · cases hd
      exact (update (c := c.note k .error _) hk k.state _).after_record (by simp [hc])
    · cases hd
      exact (update (c := c.note k .error _) hk k.state _).after_record (by simp [hc])
    · cases hd
      exact .drop
    · cases hd
      exact (drop (c := c.note k .error _)).after_record (by simp [hc])
    · cases hd
  · rename_i hc
    have hclass : ∀ l : FramedLine, l.classified.lineClass = .error ↔ k.channel = .errors := by
      intro l
      simp [classified_ne_error l, hc]
    rcases readOutput_cases step with ⟨l, rest, -, -, rfl, rfl⟩ | ⟨l, rest, -, -, heq⟩ |
      ⟨-, heq⟩ | ⟨reason, -, heq⟩
    · exact (update (c := c.record ..) hk _ _).after_record (hclass l)
    all_goals obtain ⟨rfl, rfl⟩ := Prod.mk.inj heq
    · exact (settle (c := c.record ..) hc).after_record (hclass l)
    · exact settle hc
    · exact (settle (c := c.note ..) hc).after_record (by simp [hc])

/-- **A consumer that stops** because the run is canceled. -/
theorem quit : Touches c k (c.quit k).1 (c.quit k).2 := by
  unfold Collector.quit
  split
  · exact .drop
  · exact settle ‹_›

/-- The entries of the other streams stay. -/
theorem outputLog_eq (h : Touches c k c' said) (hne : (i, Channel.output) ≠ (k.index, k.channel)) :
    c'.outputLog i = c.outputLog i := by
  obtain ⟨more, hlog, hmore⟩ := h.entries
  have hnone : more.filter (fun e => e.index = i ∧ e.lineClass ≠ .error) = [] := by
    refine List.filter_eq_nil_iff.2 fun e he => ?_
    obtain ⟨hindex, hclass⟩ := hmore e he
    simp only [decide_eq_true_eq]
    rintro ⟨rfl, herror⟩
    refine hne (Prod.ext hindex ?_)
    cases hk : k.channel with
    | output => rfl
    | errors => exact absurd (hclass.2 hk) herror
  rw [outputLog, hlog, List.filter_append, hnone, List.append_nil, outputLog]

end Touches

/-! ## Any step -/

/-- An action of a consumer is that of one there is, and touches what it does. -/
theorem act_touches (step : c.act canceled a = some (c', said)) (hnew : a.arrival? = none) :
    ∃ k, c.consumer? k.index k.channel = some k ∧ Touches c k c' said ∧
      (a = .read k.index k.channel ∧ c.read k = some (c', said) ∨
        a = .quit k.index k.channel ∧ canceled = true ∧ (c', said) = c.quit k) := by
  cases a with
  | manage id output errors => cases hnew
  | failStart id reason => cases hnew
  | read index channel =>
    obtain ⟨k, hk, hread⟩ := Option.bind_eq_some_iff.1 step
    obtain ⟨-, rfl, rfl⟩ := mem_of_consumer? hk
    exact ⟨k, hk, .read hk hread, .inl ⟨rfl, hread⟩⟩
  | quit index channel =>
    obtain ⟨k, hk, hquit⟩ := Option.bind_eq_some_iff.1 step
    obtain ⟨-, rfl, rfl⟩ := mem_of_consumer? hk
    split at hquit
    · rename_i hcanceled
      have heq : c.quit k = (c', said) := Option.some.inj hquit
      have htouches : Touches c k (c.quit k).1 (c.quit k).2 := .quit
      rw [heq] at htouches
      exact ⟨k, hk, htouches, .inr ⟨rfl, hcanceled, heq.symm⟩⟩
    · cases hquit

/-- An action registers the instance that it says. -/
theorem count_act (step : c.act canceled a = some (c', said)) :
    c'.count = c.count + a.arrival?.toList.length := by
  cases h : a.arrival? with
  | none =>
    obtain ⟨k, -, htouches, -⟩ := act_touches step h
    exact htouches.count
  | some x =>
    cases a with
    | manage id output errors => cases step; rfl
    | failStart id reason => cases step; rfl
    | read index channel => cases h
    | quit index channel => cases h

/-- **To the standard output of an instance** a step is that of its own consumer, or of
another and leaves it as it is. -/
theorem act_cases (step : c.act canceled a = some (c', said))
    (hi : a.arrival? = none ∨ i ≠ c.count) :
    (a ≠ .read i .output ∧ a ≠ .quit i .output ∧
      c'.consumer? i .output = c.consumer? i .output ∧ c'.outputLog i = c.outputLog i) ∨
    ∃ k, c.consumer? i .output = some k ∧
      (a = .read i .output ∧ c.readOutput k = some (c', said) ∨
        a = .quit i .output ∧ canceled = true ∧
          (c', said) = c.settle k (if k.state = .running then .canceled else k.state)) := by
  cases ha : a.arrival? with
  | none =>
    obtain ⟨k, hk, htouches, hact⟩ := act_touches step ha
    by_cases hkey : (i, Channel.output) = (k.index, k.channel)
    · obtain ⟨rfl, hc⟩ := Prod.mk.inj hkey
      rw [← hc] at hk hact
      refine .inr ⟨k, hk, hact.imp (And.imp_right fun hread => ?_)
        (And.imp_right (And.imp_right fun hquit => ?_))⟩
      · simpa only [Collector.read, ← hc] using hread
      · simpa only [Collector.quit, ← hc] using hquit
    · refine .inl ⟨?_, ?_, htouches.others i .output hkey, htouches.outputLog_eq hkey⟩
      · rintro rfl
        simp only [Action.read.injEq, reduceCtorEq, false_and, or_false] at hact
        exact hkey (Prod.ext hact.1.1 hact.1.2)
      · rintro rfl
        simp only [Action.quit.injEq, reduceCtorEq, false_and, false_or] at hact
        exact hkey (Prod.ext hact.1.1 hact.1.2)
  | some x =>
    have hne : i ≠ c.count := hi.resolve_left (by simp [ha])
    cases a with
    | manage id output errors =>
      cases step
      exact .inl ⟨nofun, nofun, by rw [consumer?_manage, if_neg hne, Option.or_none], rfl⟩
    | failStart id reason =>
      cases step
      refine .inl ⟨nofun, nofun, rfl, ?_⟩
      simp [outputLog, record, register, Ne.symm hne]
    | read index channel => cases ha
    | quit index channel => cases ha

end Collector

end Conductor
