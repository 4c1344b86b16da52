import Conductor.Proofs.Event.RoundTrip
import Conductor.Proofs.Log.Framing
/-!
# Log — the lines of events

A stream of envelopes, each on a line of its own, makes an entry for each of them in the
log (`Transcript.outputEntries_envelopes`): the line of an envelope is one line, for all
control characters in it are escaped, and is read as the envelope with its numbers reread.
What the entry says is settled by that event alone (`Event.Reports`), and so is what the
events say together of the instance (`Event.verdict`).
-/

namespace Conductor

/-! ## What events say -/

/-- An outcome is read from its name. -/
theorem Outcome.parse_name (o : Outcome) : parse o.name = .ok o := by
  cases o <;> rfl

namespace Event

/-- The text of a payload: null is as good as none. -/
def payloadText : Option Json → String
  | none => ""
  | some .null => ""
  | some v => v.text

/-- The event finishes the instance with an outcome. -/
def Finishes (e : Event) (o : Outcome) : Prop := e.kind = .finish ∧ e.outcome = some o.name

instance (e : Event) (o : Outcome) : Decidable (e.Finishes o) :=
  inferInstanceAs (Decidable (_ ∧ _))

/-- What an event says in the log: the class of its line, and the text. -/
inductive Reports (e : Event) : LineClass → String → Prop
  | start (h : e.kind = .start) : Reports e .start (payloadText e.runenv)
  | message (h : e.kind = .message) : Reports e .message (e.message.getD "")
  | metric (h : e.kind = .metric) : Reports e .metric (payloadText e.metric)
  | ok (h : e.Finishes .ok) : Reports e .ok ""
  | failed (h : e.Finishes .failed) : Reports e .fail (e.error.getD "")
  | crashed (h : e.Finishes .crashed) :
    Reports e .crash ("\n".intercalate (e.error.toList ++ e.stacktrace.toList))

/-- What an event means for its instance. -/
def meaning (e : Event) : LineEffect :=
  if e.Finishes .failed ∨ e.Finishes .crashed then .fails
  else if e.Finishes .ok then .passes
  else .none

/-- No event says of itself that it could not be read. -/
theorem Reports.lineClass_ne {e : Event} {cls : LineClass} {text : String}
    (h : e.Reports cls text) : cls ≠ .other ∧ cls ≠ .internalError := by
  cases h <;> simp

/-- What a metric says. -/
theorem reports_of_metric {e : Event} {cls : LineClass} {text : String} (hk : e.kind = .metric) :
    e.Reports cls text ↔ cls = .metric ∧ text = payloadText e.metric := by
  constructor
  · rintro (h | h | h | h | h | h)
    · cases hk.symm.trans h
    · cases hk.symm.trans h
    · exact ⟨rfl, rfl⟩
    · cases hk.symm.trans h.1
    · cases hk.symm.trans h.1
    · cases hk.symm.trans h.1
  · rintro ⟨rfl, rfl⟩
    exact .metric hk

/-- A failure among the events is final, and else a success is. -/
def verdict (events : List Event) : Verdict :=
  if ∃ e ∈ events, e.Finishes .failed ∨ e.Finishes .crashed then .failed
  else if ∃ e ∈ events, e.Finishes .ok then .passed
  else .incomplete

/-! ## What they mean -/

section Meaning

variable {e : Event} {o o' : Outcome}

/-- An event finishes its instance with one outcome. -/
theorem Finishes.unique (h : e.Finishes o) (h' : e.Finishes o') : o = o' := by
  have hname : o.name = o'.name := Option.some.inj (h.2.symm.trans h'.2)
  have hparse := congrArg Outcome.parse hname
  rw [Outcome.parse_name, Outcome.parse_name] at hparse
  exact Except.ok.inj hparse

theorem meaning_of_kind (h : e.kind ≠ .finish) : e.meaning = .none := by
  simp [meaning, Finishes, h]

theorem meaning_of_ok (h : e.Finishes .ok) : e.meaning = .passes := by
  have hfails : ¬ (e.Finishes .failed ∨ e.Finishes .crashed) := by
    rintro (h' | h') <;> cases h.unique h'
  rw [meaning, if_neg hfails, if_pos h]

theorem meaning_eq_fails : e.meaning = .fails ↔ e.Finishes .failed ∨ e.Finishes .crashed := by
  unfold meaning
  split <;> rename_i h
  · simp [h]
  · split <;> simp [h]

theorem meaning_eq_passes : e.meaning = .passes ↔ e.Finishes .ok := by
  refine ⟨fun h => ?_, meaning_of_ok⟩
  unfold meaning at h
  split at h
  · cases h
  · split at h
    · assumption
    · cases h

/-- No event stops its instance. -/
theorem meaning_ne_stops (e : Event) : e.meaning ≠ .stops := by
  unfold meaning
  split
  · simp
  · split <;> simp

end Meaning

end Event

namespace Envelope

variable {env : Envelope} {index : Nat} {id : String}

/-- The envelope can be delivered: its line is not too long, its payloads are not too deep,
and if it finishes the instance it says with which outcome. -/
structure Deliverable (env : Envelope) : Prop where
  kept : ∀ v ∈ env.event.payloads, v.IsKept
  shallow : ∀ v ∈ env.event.payloads, v.depth ≤ 125
  fits : (Text.Utf8.ofString env.toLine).length + 1 ≤ maxLine
  known : env.event.kind = .finish → ∃ o, env.event.Finishes o

/-- The entry of an envelope in the log. What it says is what the event says with the numbers
in its payloads reread, and so what the event itself says if its payloads are read as they are
printed. The time is told by its nanoseconds, if 64 bits hold them; else the entry has none of
its own. -/
structure Entered (index : Nat) (id : String) (env : Envelope) (e : LogEntry) : Prop where
  index : e.index = index
  instanceId : e.instanceId = id
  reports : env.event.reread.Reports e.lineClass e.text
  exact : (∀ v ∈ env.event.payloads, Json.parseText v.text = .ok v) →
    env.event.Reports e.lineClass e.text
  time : e.time = (env.time.filter (·.IsSent)).map .counted

/-! ## The line of an envelope -/

/-- **The line of an envelope** is one line. -/
theorem printable_toLine (h : env.Deliverable) :
    ∀ b ∈ Text.Utf8.ofString env.toLine, 32 ≤ b.toNat := by
  have hline := toLine_printable h.kept
  intro b hb
  by_contra hlow
  -- an octet below 128 is a character
  obtain ⟨c, hc, hbc⟩ := List.mem_flatMap.1 hb
  have hcode := (Text.Utf8.eq_singleton_of_mem hbc (by omega)).2
  have := hline c hc
  omega

/-- So it is kept as it is. -/
theorem lineOf_toLine (h : env.Deliverable) :
    Framing.lineOf (Text.Utf8.ofString env.toLine) = .text env.toLine := by
  refine Framing.lineOf_text h.fits fun b hb => ?_
  have hlow := printable_toLine h b hb
  by_contra hend
  simp only [Framing.isLineEnd, Framing.newline, Bool.not_eq_false, Bool.or_eq_true] at hend
  rcases hend with hend | hend <;> simp [of_decide_eq_true hend] at hlow

/-- It is classified as what arrives of the envelope. -/
theorem classify_toLine (h : env.Deliverable) :
    Conductor.classify env.toLine = env.reread.received.classify := by
  rw [Conductor.classify, parse_toLine fun v hv => ⟨h.kept v hv, h.shallow v hv⟩]

/-! ## The entry of an envelope -/

theorem payloadText_arriving (v : Option Json) :
    ((Json.Decode.arriving v).map Json.text).getD "" = Event.payloadText v := by
  cases v with
  | none => rfl
  | some v => cases v <;> rfl

theorem crashText_eq (error stacktrace : Option String) :
    crashText error stacktrace = "\n".intercalate (error.toList ++ stacktrace.toList) := by
  cases error <;> cases stacktrace <;> rfl

/-- **What arrives of an envelope** is classified as the event says. -/
theorem classify_received (env : Envelope)
    (h : env.event.kind = .finish → ∃ o, env.event.Finishes o) :
    env.received.classify.time = env.received.time ∧
      env.event.Reports env.received.classify.lineClass env.received.classify.text ∧
      env.received.classify.effect = env.event.meaning := by
  cases hk : env.event.kind with
  | start =>
    have hclass : env.received.classify =
        ⟨.start, env.received.time, Event.payloadText env.event.runenv, .none⟩ := by
      simp [classify, received, Event.received, hk, payloadText_arriving]
    rw [hclass]
    exact ⟨rfl, .start hk, (Event.meaning_of_kind (by simp [hk])).symm⟩
  | message =>
    have hclass : env.received.classify =
        ⟨.message, env.received.time, env.event.message.getD "", .none⟩ := by
      simp [classify, received, Event.received, hk]
    rw [hclass]
    exact ⟨rfl, .message hk, (Event.meaning_of_kind (by simp [hk])).symm⟩
  | metric =>
    have hclass : env.received.classify =
        ⟨.metric, env.received.time, Event.payloadText env.event.metric, .none⟩ := by
      simp [classify, received, Event.received, hk, payloadText_arriving]
    rw [hclass]
    exact ⟨rfl, .metric hk, (Event.meaning_of_kind (by simp [hk])).symm⟩
  | finish =>
    obtain ⟨o, ho⟩ := h hk
    -- the outcome is one of the three, so nothing here can stop the instance
    have htyped : env.received.event.typedOutcome = .ok o := by
      rw [Event.typedOutcome, show env.received.event.outcome = some o.name from ho.2]
      exact Outcome.parse_name o
    have hkind : env.received.event.kind = .finish := hk
    simp only [classify, hkind, htyped]
    cases o with
    | ok => exact ⟨rfl, .ok ho, (Event.meaning_of_ok ho).symm⟩
    | failed => exact ⟨rfl, .failed ho, (Event.meaning_eq_fails.2 (.inl ho)).symm⟩
    | crashed =>
      refine ⟨rfl, ?_, (Event.meaning_eq_fails.2 (.inr ho)).symm⟩
      rw [crashText_eq]
      exact .crashed ho

/-- **The entry of its line** is that of the envelope. -/
theorem entered_lineEntry (h : env.Deliverable) :
    env.Entered index id (Transcript.lineEntry index id (.text env.toLine)) := by
  obtain ⟨htime, hreports, -⟩ := classify_received env.reread h.known
  rw [Transcript.lineEntry, FramedLine.classified, classify_toLine h, htime]
  refine ⟨rfl, rfl, hreports, fun hread => ?_, Instant.received_eq env.time⟩
  have hself : env.event.reread = env.event :=
    Envelope.reread_event (fun v hv => ⟨h.kept v hv, h.shallow v hv⟩) hread
  rw [← hself]
  exact hreports

/-- The entries of envelopes are none of a line that could not be read. -/
theorem lineClass_of_entered {envs : List Envelope} {entries : List LogEntry}
    (h : List.Forall₂ (Entered index id) envs entries) :
    ∀ e ∈ entries, e.lineClass ≠ .other ∧ e.lineClass ≠ .internalError := by
  induction h with
  | nil => simp
  | cons hentered _ ih =>
    exact List.forall_mem_cons.2 ⟨hentered.reports.lineClass_ne, ih⟩

/-- Its line means what the event does. -/
theorem effect_toLine (h : env.Deliverable) :
    (FramedLine.text env.toLine).classified.effect = env.event.meaning := by
  rw [FramedLine.classified, classify_toLine h]
  exact (classify_received env.reread h.known).2.2

end Envelope

/-! ## The verdict on an instance -/

namespace Event

/-- **What events make of an instance** that runs. -/
theorem settled_foldl (events : List Event) :
    (events.foldl (fun v e => v.after e.meaning) Verdict.running).settled = verdict events := by
  rw [Verdict.foldl_after (.inl rfl)]
  simp only [verdict, meaning_eq_fails, meaning_eq_passes, reduceCtorEq, false_or]
  split
  · rfl
  · split <;> rfl

end Event

/-! ## A stream of envelopes -/

namespace FramedLine

/-- All lines are heard if none stops. -/
theorem heard_eq_self {ls : List FramedLine} (h : ∀ l ∈ ls, ¬ l.Stops) : heard ls = ls := by
  induction ls with
  | nil => rfl
  | cons l ls ih =>
    rw [heard, if_neg (h l (by simp)), ih fun l' hl' => h l' (List.mem_cons_of_mem _ hl')]

end FramedLine

namespace OctetStream

variable {s : OctetStream} {envs : List Envelope} {index : Nat} {id : String}

/-- **A stream of envelopes**, each on a line of its own, has these lines. -/
theorem transcript_of_envelopes (h : ∀ env ∈ envs, env.Deliverable) (hclosed : s.ending = .closed)
    (hs : s.chunks.flatten =
      envs.flatMap fun env => Text.Utf8.ofString env.toLine ++ [Framing.newline]) :
    s.transcript = ⟨envs.map fun env => .text env.toLine, none⟩ := by
  have hpieces : ∀ p ∈ envs.map fun env => Text.Utf8.ofString env.toLine, Framing.newline ∉ p := by
    intro p hp hmem
    obtain ⟨env, henv, rfl⟩ := List.mem_map.1 hp
    have hlow := Envelope.printable_toLine (h env henv) _ hmem
    simp [Framing.newline] at hlow
  have hlines : (envs.map fun env => Text.Utf8.ofString env.toLine).map Framing.lineOf =
      envs.map fun env => .text env.toLine := by
    rw [List.map_map]
    refine List.map_congr_left fun env henv => ?_
    rw [Function.comp_apply, Envelope.lineOf_toLine (h env henv)]
  rw [← hlines]
  exact transcript_of_pieces hpieces hclosed (by rw [hs, List.flatMap_map])

end OctetStream

namespace Transcript

variable {envs : List Envelope} {index : Nat} {id : String}

/-- No line of them stops. -/
theorem heard_envelopes (h : ∀ env ∈ envs, env.Deliverable) :
    FramedLine.heard (envs.map fun env => .text env.toLine) =
      envs.map fun env => .text env.toLine := by
  refine FramedLine.heard_eq_self fun l hl hstops => ?_
  obtain ⟨env, henv, rfl⟩ := List.mem_map.1 hl
  rw [FramedLine.Stops, Envelope.effect_toLine (h env henv)] at hstops
  exact Event.meaning_ne_stops _ hstops

/-- **Their verdict** is that of the events. -/
theorem verdict_envelopes (h : ∀ env ∈ envs, env.Deliverable) :
    verdictFrom .running ⟨envs.map fun env => .text env.toLine, none⟩ =
      Event.verdict (envs.map Envelope.event) := by
  rw [verdictFrom, stateFrom, heard_envelopes h, List.foldl_map, ← Event.settled_foldl,
    List.foldl_map]
  refine congrArg Verdict.settled (List.foldl_ext _ _ _ fun v env henv => ?_)
  rw [Envelope.effect_toLine (h env henv)]

/-- **Their entries** are those of the envelopes in order, and a closing one if no event says
how the instance finished. -/
theorem outputEntries_envelopes (h : ∀ env ∈ envs, env.Deliverable) :
    ∃ entries, List.Forall₂ (Envelope.Entered index id) envs entries ∧
      outputEntries index id .running ⟨envs.map fun env => .text env.toLine, none⟩ =
        entries ++ if Event.verdict (envs.map Envelope.event) = .incomplete then
          [closingEntry index id] else [] := by
  refine ⟨envs.map fun env => lineEntry index id (.text env.toLine), ?_, ?_⟩
  · rw [List.forall₂_map_right_iff, List.forall₂_same]
    exact fun env henv => Envelope.entered_lineEntry (h env henv)
  · rw [outputEntries, heard_envelopes h, verdict_envelopes h, List.map_map]
    simp

end Transcript

end Conductor
