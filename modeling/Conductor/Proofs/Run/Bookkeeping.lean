import Conductor.Proofs.Table
import Conductor.Run.Collector
/-!
# Runs — the books of a collector

A collector keeps three books on the instances of a run: how many there are, how
many of them failed, and the verdict of each. They are written in different
places, when an instance is registered and when its standard output is done,
and a consumer carries what it has read so far by itself. `Balanced` is the
relation between the books and the consumers that every step keeps
(`Balanced.act`), whatever consumer takes it and wherever a cancellation falls;
`Follows.bookkeeping` reads it where no consumer is left.

The instances of a course have distinct ids. Everything else is free: the
order of the steps, the streams, and the moment of the cancellation.
-/

namespace Conductor

/-- The instances that an action registers. -/
def Collector.Action.registered : Collector.Action → List String
  | .manage id _ _ => [id]
  | .failStart id _ => [id]
  | .read _ _ => []
  | .quit _ _ => []

deriving instance DecidableEq for Collector

namespace Collector

/-- Something that happens in the course of a run. -/
inductive Event
  /-- An instance is registered, or a consumer takes a step. -/
  | act (action : Action)
  /-- The run is canceled. -/
  | cancel
  /-- The streams that stayed open are closed. -/
  | hangUp

/-- The instances that an event registers. -/
def Event.registered : Event → List String
  | .act a => a.registered
  | .cancel => []
  | .hangUp => []

/-- The instances registered in a course of events, in order. -/
def registered (es : List Event) : List String := es.flatMap Event.registered

/-- The collector behind a course of events, and whether the run is canceled by
then. -/
inductive Follows : List Event → Collector → Bool → Prop
  | start : Follows [] empty false
  | act {es : List Event} {c c' : Collector} {canceled : Bool} {a : Action}
    {said : List Announcement} :
    Follows es c canceled → c.act canceled a = some (c', said) →
      Follows (es ++ [.act a]) c' canceled
  | cancel {es : List Event} {c : Collector} {canceled : Bool} :
    Follows es c canceled → Follows (es ++ [.cancel]) c true
  | hangUp {es : List Event} {c : Collector} {canceled : Bool} :
    Follows es c canceled → Follows (es ++ [.hangUp]) c.closeStreams canceled

/-- The number of entries that count as failures. -/
def failures (t : Table Verdict) : Nat := t.countP fun x => x.2.isFailure

/-- What standard output can have said of an instance while it is read. -/
def IsSaid (v : Verdict) : Prop := v = .running ∨ v = .passed ∨ v = .failed

/-- **The books agree** with each other, with the instances registered and with
the consumers that are left. -/
structure Balanced (ids : List String) (canceled : Bool) (c : Collector) : Prop where
  count : c.count = ids.length
  sorted : c.verdicts.Sorted
  keys : ∀ id, id ∈ c.verdicts.keys ↔ id ∈ ids
  failed : c.failed = failures c.verdicts
  cut : ∀ id, c.verdicts.get? id = some .canceled → canceled = true
  /-- A consumer reads a stream of the instance that was registered at its index. -/
  named : ∀ k ∈ c.consumers, ids[k.index]? = some k.instanceId
  /-- A stream has one consumer. -/
  single : c.consumers.Pairwise fun x y => ¬ (x.index = y.index ∧ x.channel = y.channel)
  /-- An instance runs as long as its standard output has a consumer. -/
  running : ∀ id, c.verdicts.get? id = some .running ↔
    ∃ k ∈ c.consumers, k.instanceId = id ∧ k.channel = .output
  said : ∀ k ∈ c.consumers, IsSaid k.state

variable {ids : List String} {canceled : Bool} {c c' : Collector} {k k' : Consumer}
  {id : String} {v : Verdict} {said : List Announcement}

/-! ## Counting failures -/

/-- A new entry counts as its verdict does. -/
theorem failures_insert_of_not_mem {t : Table Verdict} (h : id ∉ t.keys) :
    failures (t.insert id v) = failures t + if v.isFailure then 1 else 0 := by
  have hp := (Table.insert_perm_of_not_mem (v := v) h).countP_eq fun x => x.2.isFailure
  rw [List.countP_cons] at hp
  exact hp

/-- And so does the one that takes the place of an instance still running. -/
theorem failures_insert_of_running {t : Table Verdict} (h : t.Sorted)
    (hr : t.get? id = some .running) :
    failures (t.insert id v) = failures t + if v.isFailure then 1 else 0 := by
  have hp := (Table.insert_perm_of_get? (v := v) h hr).countP_eq fun x => x.2.isFailure
  rw [List.countP_cons, List.countP_cons] at hp
  simpa [Verdict.isFailure, failures] using hp

/-! ## Consumers -/

/-- What the collector finds for a stream is a consumer of that stream. -/
theorem mem_of_consumer? {index : Nat} {channel : Channel}
    (h : c.consumer? index channel = some k) :
    k ∈ c.consumers ∧ k.index = index ∧ k.channel = channel := by
  refine ⟨List.mem_of_find?_eq_some h, ?_⟩
  simpa using List.find?_some h

/-- The consumers left when that of a stream is done. -/
theorem mem_drop : k' ∈ (c.drop k).consumers ↔
    k' ∈ c.consumers ∧ ¬ (k'.index = k.index ∧ k'.channel = k.channel) := by
  simp only [drop, without, List.mem_filter, Bool.not_eq_true', ← Bool.not_eq_true,
    Bool.and_eq_true, decide_eq_true_eq]

/-- What standard output has said stays among the same three. -/
theorem IsSaid.after (h : IsSaid v) (e : LineEffect) : IsSaid (v.after e) := by
  cases e with
  | passes =>
    rcases h with rfl | rfl | rfl <;> simp [Verdict.after, IsSaid]
  | fails => exact .inr (.inr rfl)
  | none => exact h
  | stops => exact h

/-! ## Consumers and their instances -/

namespace Balanced

/-- A consumer reads a stream of an instance that is registered. -/
theorem index_lt (h : Balanced ids canceled c) (hk : k ∈ c.consumers) : k.index < ids.length :=
  (List.getElem?_eq_some_iff.1 (h.named k hk)).1

theorem mem_ids (h : Balanced ids canceled c) (hk : k ∈ c.consumers) : k.instanceId ∈ ids :=
  List.mem_of_getElem? (h.named k hk)

/-- Consumers at one index read streams of one instance. -/
theorem instanceId_eq (h : Balanced ids canceled c) (hk : k ∈ c.consumers)
    (hk' : k' ∈ c.consumers) (heq : k'.index = k.index) : k'.instanceId = k.instanceId := by
  have hsome : some k'.instanceId = some k.instanceId := by
    rw [← h.named k' hk', ← h.named k hk, heq]
  exact Option.some.inj hsome

/-- And the other way round, since the ids are distinct. -/
theorem index_eq (h : Balanced ids canceled c) (distinct : ids.Nodup) (hk : k ∈ c.consumers)
    (hk' : k' ∈ c.consumers) (heq : k'.instanceId = k.instanceId) : k'.index = k.index := by
  have hget : ids[k'.index]? = ids[k.index]? := by rw [h.named k' hk', h.named k hk, heq]
  exact (List.getElem?_inj (h.index_lt hk') distinct).1 hget

/-! ## What each operation does to the books -/

/-- Entering a line in the log touches no other book. -/
theorem record (h : Balanced ids canceled c) (index : Nat) (id : String) (time : Option Instant)
    (cls : LineClass) (text : String) :
    Balanced ids canceled (c.record index id time cls text) :=
  ⟨h.count, h.sorted, h.keys, h.failed, h.cut, h.named, h.single, h.running, h.said⟩

/-- Nor does a change of the consumers that keeps what each of them reads. -/
theorem mapConsumers (h : Balanced ids canceled c) (f : Consumer → Consumer)
    (hf : ∀ x ∈ c.consumers, (f x).index = x.index ∧ (f x).channel = x.channel ∧
      (f x).instanceId = x.instanceId ∧ IsSaid (f x).state) :
    Balanced ids canceled { c with consumers := c.consumers.map f } where
  count := h.count
  sorted := h.sorted
  keys := h.keys
  failed := h.failed
  cut := h.cut
  named := by
    intro y hy
    obtain ⟨x, hx, rfl⟩ := List.mem_map.1 hy
    obtain ⟨hi, -, hn, -⟩ := hf x hx
    rw [hi, hn]
    exact h.named x hx
  single := by
    refine List.pairwise_map.2 (h.single.imp_of_mem fun {x y} hx hy hxy => ?_)
    rw [(hf x hx).1, (hf y hy).1, (hf x hx).2.1, (hf y hy).2.1]
    exact hxy
  running := by
    intro id
    refine (h.running id).trans ⟨?_, ?_⟩
    · rintro ⟨x, hx, hn, hc⟩
      exact ⟨f x, List.mem_map_of_mem hx, (hf x hx).2.2.1.trans hn, (hf x hx).2.1.trans hc⟩
    · rintro ⟨y, hy, hn, hc⟩
      obtain ⟨x, hx, rfl⟩ := List.mem_map.1 hy
      exact ⟨x, hx, (hf x hx).2.2.1.symm.trans hn, (hf x hx).2.1.symm.trans hc⟩
  said := by
    intro y hy
    obtain ⟨x, hx, rfl⟩ := List.mem_map.1 hy
    exact (hf x hx).2.2.2

/-- Closing streams changes no more than the streams. -/
theorem closeStreams (h : Balanced ids canceled c) : Balanced ids canceled c.closeStreams := by
  refine h.mapConsumers _ fun x hx => ?_
  have := h.said x hx
  split <;> exact ⟨rfl, rfl, rfl, this⟩

/-- A consumer that has read on keeps its place. -/
theorem update (h : Balanced ids canceled c) (hk : k ∈ c.consumers) (stream : OctetStream)
    {state : Verdict} (hs : IsSaid state) :
    Balanced ids canceled (c.update { k with state, stream }) := by
  refine h.mapConsumers _ fun x hx => ?_
  split
  · rename_i heq
    have heq : x.index = k.index ∧ x.channel = k.channel := by simpa using heq
    exact ⟨heq.1.symm, heq.2.symm, (h.instanceId_eq hk hx heq.1).symm, hs⟩
  · exact ⟨rfl, rfl, rfl, h.said x hx⟩

/-- A consumer of standard error may go: no verdict hangs on it. -/
theorem dropErrors (h : Balanced ids canceled c) (hk : k.channel = .errors) :
    Balanced ids canceled (c.drop k) where
  count := h.count
  sorted := h.sorted
  keys := h.keys
  failed := h.failed
  cut := h.cut
  named := fun x hx => h.named x (mem_drop.1 hx).1
  single := h.single.sublist List.filter_sublist
  running := by
    intro id
    refine (h.running id).trans ⟨?_, ?_⟩
    · -- what reads standard output is not the consumer that goes
      rintro ⟨x, hx, hn, hc⟩
      refine ⟨x, mem_drop.2 ⟨hx, fun hxk => ?_⟩, hn, hc⟩
      rw [hc, hk] at hxk
      cases hxk.2
    · rintro ⟨x, hx, hn, hc⟩
      exact ⟨x, (mem_drop.1 hx).1, hn, hc⟩
  said := fun x hx => h.said x (mem_drop.1 hx).1

/-- **A verdict is given**, by the consumer of the standard output, which goes. -/
theorem dropOutput (h : Balanced ids canceled c) (distinct : ids.Nodup) (hk : k ∈ c.consumers)
    (hc : k.channel = .output) (hv : v ≠ .running) (hcut : v = .canceled → canceled = true) :
    Balanced ids canceled ((c.drop k).assign k.instanceId v).1 where
  count := h.count
  sorted := h.sorted.insert
  keys := by
    intro id
    refine Table.mem_keys_insert.trans ⟨?_, fun hid => .inr ((h.keys id).2 hid)⟩
    rintro (rfl | hid)
    · exact h.mem_ids hk
    · exact (h.keys id).1 hid
  failed := by
    have hrun : c.verdicts.get? k.instanceId = some .running := (h.running _).2 ⟨k, hk, rfl, hc⟩
    have hfail : failures (c.verdicts.insert k.instanceId v) = _ :=
      failures_insert_of_running h.sorted hrun
    simp only [assign, drop, hfail, h.failed]
    split <;> rfl
  cut := by
    intro id hid
    by_cases hik : id = k.instanceId
    · rw [hik] at hid
      exact hcut (Option.some.inj (Table.get?_insert_self.symm.trans hid))
    · exact h.cut id ((Table.get?_insert_of_ne hik).symm.trans hid)
  named := fun x hx => h.named x (mem_drop.1 hx).1
  single := h.single.sublist List.filter_sublist
  running := by
    intro id
    by_cases hik : id = k.instanceId
    · -- no other consumer reads the standard output of this instance
      subst hik
      constructor
      · intro hid
        exact absurd (Option.some.inj (Table.get?_insert_self.symm.trans hid)) hv
      · rintro ⟨x, hx, hn, hxc⟩
        obtain ⟨hx, hne⟩ := mem_drop.1 hx
        exact absurd ⟨h.index_eq distinct hk hx hn, hxc.trans hc.symm⟩ hne
    · -- and those of the other instances stay
      have hget : Table.get? id (c.verdicts.insert k.instanceId v) = c.verdicts.get? id :=
        Table.get?_insert_of_ne hik
      refine (Iff.of_eq (congrArg (· = some Verdict.running) hget)).trans
        ((h.running id).trans ⟨?_, ?_⟩)
      · rintro ⟨x, hx, hn, hxc⟩
        refine ⟨x, mem_drop.2 ⟨hx, fun hxk => hik ?_⟩, hn, hxc⟩
        rw [← hn]
        exact h.instanceId_eq hk hx hxk.1
      · rintro ⟨x, hx, hn, hxc⟩
        exact ⟨x, (mem_drop.1 hx).1, hn, hxc⟩
  said := fun x hx => h.said x (mem_drop.1 hx).1

/-- Settling gives a verdict that is not open. -/
theorem settle (h : Balanced ids canceled c) (distinct : ids.Nodup) (hk : k ∈ c.consumers)
    (hc : k.channel = .output) (hcut : v = .canceled → canceled = true) :
    Balanced ids canceled (c.settle k v).1 := by
  unfold Collector.settle
  split
  · exact (h.record k.index k.instanceId none .incomplete "").dropOutput distinct hk hc
      (by decide) (by simp)
  · rename_i hv
    exact h.dropOutput distinct hk hc hv hcut

/-- The place of a consumer does not move when an instance is registered. -/
theorem named_append (h : Balanced ids canceled c) (hk : k ∈ c.consumers) (id : String) :
    (ids ++ [id])[k.index]? = some k.instanceId := by
  rw [List.getElem?_append_left (h.index_lt hk)]
  exact h.named k hk

/-- The instances known after a registration. -/
theorem mem_keys_append (h : Balanced ids canceled c) (v : Verdict) (id id' : String) :
    id' ∈ (c.verdicts.insert id v).keys ↔ id' ∈ ids ++ [id] := by
  rw [Table.mem_keys_insert, h.keys, List.mem_append, List.mem_singleton]
  exact or_comm

/-- **An instance that starts** gets two consumers and an open verdict. -/
theorem manage (h : Balanced ids canceled c) (hid : id ∉ ids) (output errors : OctetStream) :
    Balanced (ids ++ [id]) canceled (c.manage id output errors) where
  count := by simp [Collector.manage, register, h.count]
  sorted := h.sorted.insert
  keys := h.mem_keys_append .running id
  failed := by
    have hfail : failures (c.verdicts.insert id .running) = _ :=
      failures_insert_of_not_mem (mt (h.keys id).1 hid)
    simp only [Collector.manage, register, hfail, h.failed]
    rfl
  cut := by
    intro id' hc
    simp only [Collector.manage, Table.get?_insert] at hc
    split at hc
    · cases hc
    · exact h.cut id' hc
  named := by
    intro k hk
    rcases List.mem_append.1 hk with hk | hk
    · exact h.named_append hk id
    · simp only [List.mem_cons, List.not_mem_nil, or_false] at hk
      rcases hk with rfl | rfl <;> simp [h.count]
  single := by
    refine List.pairwise_append.2 ⟨h.single, by simp, fun x hx y hy hxy => ?_⟩
    -- the index is new: those before it are smaller
    have hlt : x.index < ids.length := h.index_lt hx
    have hy : y.index = c.count := by
      simp only [List.mem_cons, List.not_mem_nil, or_false] at hy
      rcases hy with rfl | rfl <;> rfl
    have := h.count
    omega
  running := by
    intro id'
    simp only [Collector.manage, Table.get?_insert]
    by_cases hii : id' = id
    · -- the first of the two consumers reads its standard output
      simp only [hii, if_true, true_iff]
      exact ⟨⟨c.count, id, .output, .running, output⟩, by simp, rfl, rfl⟩
    · rw [if_neg hii, h.running id']
      simp [Ne.symm hii, or_and_right, exists_or]
  said := by
    intro k hk
    rcases List.mem_append.1 hk with hk | hk
    · exact h.said k hk
    · simp only [List.mem_cons, List.not_mem_nil, or_false] at hk
      rcases hk with rfl | rfl <;> exact .inl rfl

/-- **An instance that does not start** has its verdict at once. -/
theorem failStart (h : Balanced ids canceled c) (hid : id ∉ ids) (reason : String) :
    Balanced (ids ++ [id]) canceled (c.failStart id reason).1 where
  count := by simp [Collector.failStart, assign, Collector.record, register, h.count]
  sorted := h.sorted.insert
  keys := h.mem_keys_append .incomplete id
  failed := by
    have hfail : failures (c.verdicts.insert id .incomplete) = _ :=
      failures_insert_of_not_mem (mt (h.keys id).1 hid)
    simp only [Collector.failStart, assign, Collector.record, register, hfail, h.failed]
    rfl
  cut := by
    intro id' hc
    simp only [Collector.failStart, assign, Collector.record, register, Table.get?_insert] at hc
    split at hc
    · cases hc
    · exact h.cut id' hc
  named := fun k hk => h.named_append hk id
  single := h.single
  running := by
    intro id'
    simp only [Collector.failStart, assign, Collector.record, register, Table.get?_insert]
    by_cases hii : id' = id
    · -- the instance has no consumer, for its id was not registered before
      subst hii
      simp only [if_pos, Option.some.injEq, reduceCtorEq, false_iff]
      rintro ⟨k, hk, hn, -⟩
      exact hid (hn ▸ h.mem_ids hk)
    · rw [if_neg hii, h.running id']
  said := h.said

/-! ## Steps -/

/-- An id that comes behind others without a repetition is none of them. -/
theorem not_mem_of_nodup_concat (h : (ids ++ [id]).Nodup) : id ∉ ids :=
  (List.nodup_cons.1 (List.perm_append_comm.nodup_iff.1 h)).1

/-- A consumer of standard error reads on. -/
theorem readErrors (h : Balanced ids canceled c) (hk : k ∈ c.consumers) (hc : k.channel = .errors)
    (step : c.readErrors k = some c') : Balanced ids canceled c' := by
  have hs : IsSaid k.state := h.said k hk
  unfold Collector.readErrors at step
  split at step
  · obtain rfl := Option.some.inj step
    exact (h.record ..).update hk _ hs
  · obtain rfl := Option.some.inj step
    exact (h.record ..).update hk _ hs
  · obtain rfl := Option.some.inj step
    exact h.dropErrors hc
  · obtain rfl := Option.some.inj step
    exact (h.record ..).dropErrors hc
  · cases step

/-- A consumer of standard output reads on. -/
theorem readOutput (h : Balanced ids canceled c) (distinct : ids.Nodup) (hk : k ∈ c.consumers)
    (hc : k.channel = .output) (step : c.readOutput k = some (c', said)) :
    Balanced ids canceled c' := by
  have hs : IsSaid k.state := h.said k hk
  -- what has been said is no cancellation, so settling on it needs none
  have hcut : ∀ {v : Verdict}, IsSaid v → v = .canceled → canceled = true := by
    rintro v (rfl | rfl | rfl) hv <;> cases hv
  unfold Collector.readOutput at step
  split at step
  · rename_i s rest _
    simp only at step
    split at step
    · obtain rfl := congrArg Prod.fst (Option.some.inj step)
      exact (h.record ..).settle distinct hk hc (hcut (hs.after _))
    · obtain rfl := congrArg Prod.fst (Option.some.inj step)
      exact (h.record ..).update hk _ (hs.after _)
  · obtain rfl := congrArg Prod.fst (Option.some.inj step)
    exact (h.record ..).update hk _ hs
  · obtain rfl := congrArg Prod.fst (Option.some.inj step)
    exact h.settle distinct hk hc (hcut hs)
  · obtain rfl := congrArg Prod.fst (Option.some.inj step)
    exact (h.record ..).settle distinct hk hc (hcut hs)
  · cases step

/-- A consumer stops because the run is canceled. -/
theorem quit (h : Balanced ids canceled c) (distinct : ids.Nodup) (hk : k ∈ c.consumers)
    (hcanceled : canceled = true) : Balanced ids canceled (c.quit k).1 := by
  unfold Collector.quit
  split
  · rename_i hc
    exact h.dropErrors hc
  · rename_i hc
    exact h.settle distinct hk hc fun _ => hcanceled

/-- **The step lemma**: every step keeps the books, with the instances that it
registers. -/
theorem act (h : Balanced ids canceled c) {a : Action} (distinct : (ids ++ a.registered).Nodup)
    (step : c.act canceled a = some (c', said)) :
    Balanced (ids ++ a.registered) canceled c' := by
  cases a with
  | manage id output errors =>
    obtain rfl := congrArg Prod.fst (Option.some.inj step)
    exact h.manage (not_mem_of_nodup_concat distinct) output errors
  | failStart id reason =>
    obtain rfl := congrArg Prod.fst (Option.some.inj step)
    exact h.failStart (not_mem_of_nodup_concat distinct) reason
  | read index channel =>
    simp only [Action.registered, List.append_nil] at distinct ⊢
    obtain ⟨k, hk, hread⟩ := Option.bind_eq_some_iff.1 step
    obtain ⟨hk, -, -⟩ := mem_of_consumer? hk
    unfold Collector.read at hread
    split at hread
    · rename_i hc
      obtain ⟨d, hd, heq⟩ := Option.map_eq_some_iff.1 hread
      obtain rfl := congrArg Prod.fst heq
      exact h.readErrors hk hc hd
    · rename_i hc
      exact h.readOutput distinct hk hc hread
  | quit index channel =>
    simp only [Action.registered, List.append_nil] at distinct ⊢
    obtain ⟨k, hk, hquit⟩ := Option.bind_eq_some_iff.1 step
    obtain ⟨hk, -, -⟩ := mem_of_consumer? hk
    split at hquit
    · rename_i hcanceled
      obtain rfl := congrArg Prod.fst (Option.some.inj hquit)
      exact h.quit distinct hk hcanceled
    · cases hquit

/-- A cancellation changes no book. -/
theorem cancel (h : Balanced ids canceled c) : Balanced ids true c :=
  { h with cut := fun _ _ => rfl }

/-- The books of a run that begins are empty. -/
theorem start : Balanced [] false empty where
  count := rfl
  sorted := Table.Sorted.nil
  keys := by simp [empty, Table.keys]
  failed := rfl
  cut := by simp [empty]
  named := by simp [empty]
  single := List.Pairwise.nil
  running := by simp [empty]
  said := by simp [empty]

end Balanced

/-! ## Courses -/

/-- The instances registered in a course and one more event. -/
theorem registered_append (es : List Event) (e : Event) :
    registered (es ++ [e]) = registered es ++ e.registered := by
  simp [registered]

/-- **The run lemma**: the books agree behind every course whose instances have
distinct ids. -/
theorem Follows.balanced {es : List Event} (h : Follows es c canceled)
    (distinct : (registered es).Nodup) : Balanced (registered es) canceled c := by
  induction h with
  | start => exact .start
  | @act es c c' canceled a said _ step ih =>
    rw [registered_append] at distinct ⊢
    exact (ih (List.nodup_append.1 distinct).1).act distinct step
  | @cancel es c canceled _ ih =>
    rw [registered_append] at distinct ⊢
    simpa [Event.registered] using (ih (List.nodup_append.1 distinct).1).cancel
  | @hangUp es c canceled _ ih =>
    rw [registered_append] at distinct ⊢
    simpa [Event.registered] using (ih (List.nodup_append.1 distinct).1).closeStreams

/-! ## Outcomes -/

/-- The cancellation of a run matters: it cut an instance short, or came before
there was any. -/
def IsCut (c : Collector) (canceled : Bool) : Prop :=
  canceled = true ∧ (c.verdicts = [] ∨ ∃ x ∈ c.verdicts, x.2 = .canceled)

theorem outcome_eq (c : Collector) (canceled : Bool) [Decidable (c.IsCut canceled)] :
    c.outcome canceled =
      if c.IsCut canceled then .canceled
      else if 0 < c.failed then .failure c.failed else .success := by
  refine if_congr (and_congr_right fun _ => or_congr List.isEmpty_iff ?_) rfl rfl
  rw [List.any_eq_true]
  simp only [decide_eq_true_eq]

theorem outcome_eq_canceled_iff : c.outcome canceled = .canceled ↔ c.IsCut canceled := by
  classical
  rw [outcome_eq]
  split
  · simpa
  · split <;> simpa

theorem outcome_eq_failure_iff {n : Nat} :
    c.outcome canceled = .failure n ↔ ¬ c.IsCut canceled ∧ 1 ≤ n ∧ n = c.failed := by
  classical
  rw [outcome_eq]
  split
  · rename_i h
    simp [h]
  · rename_i h
    split
    · simp only [RunOutcome.failure.injEq, h, not_false_iff, true_and]
      omega
    · simp only [reduceCtorEq, h, not_false_iff, true_and, false_iff]
      omega

theorem outcome_eq_success_iff :
    c.outcome canceled = .success ↔ ¬ c.IsCut canceled ∧ c.failed = 0 := by
  classical
  rw [outcome_eq]
  split
  · rename_i h
    simp [h]
  · rename_i h
    split
    · simp only [reduceCtorEq, h, not_false_iff, true_and, false_iff]
      omega
    · simp only [h, not_false_iff, true_and, true_iff]
      omega

namespace Balanced

/-- The table has one entry for each instance. -/
theorem keys_perm (h : Balanced ids canceled c) (distinct : ids.Nodup) :
    c.verdicts.keys.Perm ids :=
  (List.perm_ext_iff_of_nodup h.sorted.nodup_keys distinct).2 h.keys

/-- Where no consumer is left, every verdict is final. -/
theorem ne_running (h : Balanced ids canceled c) (done : c.isDone = true) :
    ∀ x ∈ c.verdicts, x.2 ≠ .running := by
  intro x hx hrun
  have hget : c.verdicts.get? x.1 = some .running := h.sorted.mem_iff_get?.1 (hrun ▸ hx)
  obtain ⟨k, hk, -, -⟩ := (h.running x.1).1 hget
  rw [List.isEmpty_iff.1 done] at hk
  cases hk

/-- An instance is canceled only where the run is. -/
theorem canceled_of_mem (h : Balanced ids canceled c) {x : String × Verdict}
    (hx : x ∈ c.verdicts) (hv : x.2 = .canceled) : canceled = true :=
  h.cut x.1 (h.sorted.mem_iff_get?.1 (hv ▸ hx))

/-- **A successful run has only instances that passed**: a failure would have been
counted, and an instance cut short would have been noticed. -/
theorem passed_of_success (h : Balanced ids canceled c) (done : c.isDone = true)
    (success : c.outcome canceled = .success) : ∀ x ∈ c.verdicts, x.2 = .passed := by
  obtain ⟨hcut, hfailed⟩ := outcome_eq_success_iff.1 success
  -- the count of failures is that of the table, so no entry is one
  have hnone : ∀ x ∈ c.verdicts, ¬ x.2.isFailure = true := by
    rw [h.failed, failures, List.countP_eq_zero] at hfailed
    exact hfailed
  intro x hx
  have hfail := hnone x hx
  cases hv : x.2 with
  | running => exact absurd hv (h.ne_running done x hx)
  | passed => rfl
  | failed => simp [hv, Verdict.isFailure] at hfail
  | incomplete => simp [hv, Verdict.isFailure] at hfail
  | canceled => exact absurd ⟨h.canceled_of_mem hx hv, .inr ⟨x, hx, hv⟩⟩ hcut

end Balanced

/-- **The books of a run that is over.** Behind every course of events with
distinct ids, once no consumer is left: the table has one entry for each instance
registered and none of them is open; the count of failures is that of the entries
that failed or said nothing; an entry is canceled only where the run is; and the
outcome is read off the table. -/
theorem Follows.bookkeeping {es : List Event} (h : Follows es c canceled)
    (distinct : (registered es).Nodup) (done : c.isDone = true) :
    c.count = (registered es).length ∧ c.verdicts.keys.Perm (registered es) ∧
      (∀ x ∈ c.verdicts, x.2 ≠ .running) ∧
      c.failed = failures c.verdicts ∧
      (∀ x ∈ c.verdicts, x.2 = .canceled → canceled = true) ∧
      (c.outcome canceled = .canceled ↔ c.IsCut canceled) ∧
      (∀ n, c.outcome canceled = .failure n ↔
        ¬ c.IsCut canceled ∧ 1 ≤ n ∧ n = failures c.verdicts) ∧
      (c.outcome canceled = .success ↔ ¬ c.IsCut canceled ∧ failures c.verdicts = 0) ∧
      (c.outcome canceled = .success → ∀ x ∈ c.verdicts, x.2 = .passed) := by
  have hb : Balanced (registered es) canceled c := h.balanced distinct
  refine ⟨hb.count, hb.keys_perm distinct, hb.ne_running done, hb.failed,
    fun x hx hv => hb.canceled_of_mem hx hv, outcome_eq_canceled_iff, fun n => ?_, ?_,
    hb.passed_of_success done⟩
  · rw [← hb.failed]
    exact outcome_eq_failure_iff
  · rw [← hb.failed]
    exact outcome_eq_success_iff

/-- Two instances, one of which does not start while the other is cut short: the
failure is counted, and the cancellation is what counts. -/
theorem bookkeeping_of_cut_instance :
    ∃ (es : List Event) (c : Collector),
      Follows es c true ∧ (registered es).Nodup ∧ c.isDone = true ∧
        c.failed = failures c.verdicts ∧ c.outcome true = .canceled ∧ 1 ≤ c.failed := by
  have hrun : Follows
      [.act (.failStart "b" "no file"), .act (.manage "a" ⟨[], .silent⟩ ⟨[], .closed⟩),
        .act (.read 1 .errors), .cancel, .act (.quit 1 .output)]
      ⟨2, 1, [("a", .canceled), ("b", .incomplete)],
        #[⟨0, "b", none, .incomplete, "failed to start: no file"⟩], []⟩ true :=
    .act (.cancel (.act (.act (.act .start rfl) rfl) rfl)) rfl
  have hbook := hrun.bookkeeping (by decide) (by decide)
  exact ⟨_, _, hrun, by decide, by decide, hbook.2.2.2.1,
    hbook.2.2.2.2.2.1.2 ⟨rfl, .inr ⟨("a", .canceled), by decide, rfl⟩⟩, by decide⟩

end Collector

end Conductor
