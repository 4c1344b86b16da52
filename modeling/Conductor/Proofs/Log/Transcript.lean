import Conductor.Log.Entry
import Conductor.Log.Framing
import Conductor.Run.Collector
import Mathlib.Data.List.TakeDrop
/-!
# Log — transcripts

What a stream holds, read to its end, is its transcript: its lines in their order, and
the reason why it could not be read further, if there is one. A transcript does not
depend on who reads the stream, or when. It says which entries the stream makes in the
log (`Transcript.errorEntries`, `Transcript.outputEntries`), and that of standard output
says what becomes of its instance (`Transcript.verdictFrom`).

A stream that stays open with nothing more to come counts as closed: it is read to its
end only once it has been closed from outside.
-/

namespace Conductor

/-- The end of a stream that does not stay open. -/
def StreamEnd.hungUp : StreamEnd → StreamEnd
  | .silent => .closed
  | e => e

/-- The stream, closed if it stayed open. -/
def OctetStream.hungUp (s : OctetStream) : OctetStream := { s with ending := s.ending.hungUp }

/-- What a stream holds: its lines, and why it could not be read to its end, if so. -/
structure Transcript where
  lines : List FramedLine
  flaw : Option String

@[simp] theorem StreamEnd.hungUp_hungUp (e : StreamEnd) : e.hungUp.hungUp = e.hungUp := by
  cases e <;> rfl

@[simp] theorem OctetStream.hungUp_hungUp (s : OctetStream) : s.hungUp.hungUp = s.hungUp := by
  simp [OctetStream.hungUp]

/-! ## Reading to the end -/

namespace Framing

variable {b : LineBuffer} {ending : StreamEnd} {chunks : List (List UInt8)}

/-- A chunk without a line end is taken in as it is, and any other is cut behind the first. -/
theorem splitLine_cases (chunk : List UInt8) :
    splitLine chunk = (chunk, none) ∨
      ∃ piece rest, splitLine chunk = (piece, some rest) ∧ chunk = piece ++ rest ∧ piece ≠ [] := by
  have happend := List.takeWhile_append_dropWhile (p := (· ≠ newline)) (l := chunk)
  simp only [splitLine, List.span_eq_takeWhile_dropWhile]
  cases hdrop : List.dropWhile (· ≠ newline) chunk with
  | nil =>
    rw [hdrop, List.append_nil] at happend
    exact .inl (by rw [happend])
  | cons x rest =>
    rw [hdrop] at happend
    exact .inr ⟨_, rest, rfl, by simpa using happend.symm, by simp⟩

/-- A line that has begun grows with what it takes in. -/
theorem absorb_length (b : LineBuffer) (piece : List UInt8) :
    (b.absorb piece).length = b.length + piece.length := by
  unfold LineBuffer.absorb
  dsimp only
  split <;> rfl

/-- What is read, where the stream behind it is closed. -/
def Reading.hungUp : Reading → Reading
  | .line l rest => .line l rest.hungUp
  | r => r

/-- Closing a stream changes nothing in what is read before. -/
theorem readOn_hungUp (h : readOn b ending chunks ≠ .waiting) :
    readOn b ending.hungUp chunks = (readOn b ending chunks).hungUp := by
  induction chunks generalizing b with
  | nil =>
    cases ending with
    | closed =>
      simp only [readOn, StreamEnd.hungUp]
      split <;> rfl
    | broken reason => rfl
    | silent => exact absurd rfl h
  | cons chunk chunks ih =>
    rcases splitLine_cases chunk with hsplit | ⟨piece, rest, hsplit, -, -⟩
    · simp only [readOn, hsplit] at h ⊢
      exact ih h
    · simp only [readOn, hsplit]
      rfl

/-- A line takes something away from the stream. -/
theorem readOn_lt {line : FramedLine} {rest : OctetStream}
    (h : readOn b ending chunks = .line line rest) :
    rest.chunks.flatten.length < b.length + chunks.flatten.length := by
  induction chunks generalizing b with
  | nil =>
    cases ending with
    | closed =>
      simp only [readOn] at h
      split at h
      · cases h
      · cases h
        simpa using Nat.pos_of_ne_zero ‹_›
    | broken reason => cases h
    | silent => cases h
  | cons chunk chunks ih =>
    rcases splitLine_cases chunk with hsplit | ⟨piece, rest, hsplit, rfl, hne⟩
    · simp only [readOn, hsplit] at h
      have := ih h
      rw [absorb_length] at this
      simp only [List.flatten_cons, List.length_append]
      omega
    · simp only [readOn, hsplit] at h
      cases h
      have := List.length_pos_iff.2 hne
      simp only [List.flatten_cons, List.length_append]
      omega

end Framing

namespace OctetStream

variable {s rest : OctetStream} {line : FramedLine} {reason : String}

/-- A line takes something away from the stream. -/
theorem readLine_lt (h : s.readLine = .line line rest) :
    rest.chunks.flatten.length < s.chunks.flatten.length := by
  have := Framing.readOn_lt h
  simpa [Framing.LineBuffer.empty] using this

/-- What the stream holds, read to its end. -/
def transcript (s : OctetStream) : Transcript :=
  match _h : s.hungUp.readLine with
  | .line line rest =>
    let t := transcript rest
    ⟨line :: t.lines, t.flaw⟩
  | .broken reason => ⟨[], some reason⟩
  | .ended => ⟨[], none⟩
  | .waiting => ⟨[], none⟩
termination_by s.chunks.flatten.length
decreasing_by exact readLine_lt (s := s.hungUp) ‹_›

/-- What is read of a stream is read of it also when it is closed. -/
theorem readLine_hungUp (h : s.readLine ≠ .waiting) : s.hungUp.readLine = s.readLine.hungUp :=
  Framing.readOn_hungUp h

theorem transcript_hungUp (s : OctetStream) : s.hungUp.transcript = s.transcript := by
  rw [transcript, transcript.eq_def s, hungUp_hungUp]

/-- A line is the first of the transcript. -/
theorem transcript_of_line (h : s.readLine = .line line rest) :
    s.transcript = ⟨line :: rest.transcript.lines, rest.transcript.flaw⟩ := by
  have hread : s.hungUp.readLine = .line line rest.hungUp := by
    rw [readLine_hungUp (by simp [h]), h]
    rfl
  rw [transcript, hread, ← transcript_hungUp rest]

/-- The transcript of a stream that has ended is empty. -/
theorem transcript_of_ended (h : s.readLine = .ended) : s.transcript = ⟨[], none⟩ := by
  have hread : s.hungUp.readLine = .ended := by
    rw [readLine_hungUp (by simp [h]), h]
    rfl
  rw [transcript, hread]

/-- That of a stream that cannot be read further has the reason only. -/
theorem transcript_of_broken (h : s.readLine = .broken reason) :
    s.transcript = ⟨[], some reason⟩ := by
  have hread : s.hungUp.readLine = .broken reason := by
    rw [readLine_hungUp (by simp [h]), h]
    rfl
  rw [transcript, hread]

end OctetStream

/-! ## What the lines say -/

namespace FramedLine

/-- The text of a line, or what is said in its place. -/
def said : FramedLine → String
  | .text s => s
  | .oversized n => oversizedText n

/-- A line of standard output, read. -/
def classified : FramedLine → ClassifiedText
  | .text s => classify s
  | .oversized n => ⟨.internalError, none, oversizedText n, .none⟩

/-- The line finishes the instance with an outcome that is unknown, or missing. -/
def Stops (l : FramedLine) : Prop := l.classified.effect = .stops

instance (l : FramedLine) : Decidable l.Stops := inferInstanceAs (Decidable (_ = _))

/-- The lines up to and including the first that stops. -/
def heard : List FramedLine → List FramedLine
  | [] => []
  | l :: ls => l :: if l.Stops then [] else heard ls

end FramedLine

/-- The verdict of an instance with a state: one that has not said how it finished is
incomplete. -/
def Verdict.settled (v : Verdict) : Verdict := if v = .running then .incomplete else v

/-- What has been said of an instance, behind some more that means something for it: a
failure is final, and a success is the first word. -/
theorem Verdict.foldl_after {α : Type} {effect : α → LineEffect} {xs : List α} {v : Verdict}
    (hv : v = .running ∨ v = .passed ∨ v = .failed) :
    xs.foldl (fun v x => v.after (effect x)) v =
      if v = .failed ∨ ∃ x ∈ xs, effect x = .fails then .failed
      else if v = .passed ∨ ∃ x ∈ xs, effect x = .passes then .passed
      else .running := by
  induction xs generalizing v with
  | nil => rcases hv with rfl | rfl | rfl <;> simp
  | cons x xs ih =>
    rw [List.foldl_cons]
    simp only [List.mem_cons, exists_eq_or_imp]
    cases hx : effect x with
    | none =>
      rw [Verdict.after, ih hv]
      simp
    | stops =>
      rw [Verdict.after, ih hv]
      simp
    | fails =>
      rw [Verdict.after, ih (.inr (.inr rfl))]
      simp
    | passes =>
      rcases hv with rfl | rfl | rfl
      · rw [Verdict.after, if_pos rfl, ih (.inr (.inl rfl))]
        simp
      · rw [Verdict.after, if_neg (by simp), ih (.inr (.inl rfl))]
        simp
      · rw [Verdict.after, if_neg (by simp), ih (.inr (.inr rfl))]
        simp

namespace Transcript

variable {index : Nat} {id : String} {state : Verdict} {flaw : Option String} {l : FramedLine}
  {ls : List FramedLine} {t : Transcript}

/-- The state of an instance behind standard output with this transcript. -/
def stateFrom (state : Verdict) (t : Transcript) : Verdict :=
  (FramedLine.heard t.lines).foldl (fun v l => v.after l.classified.effect) state

/-- The verdict of an instance behind standard output with this transcript. -/
def verdictFrom (state : Verdict) (t : Transcript) : Verdict := (t.stateFrom state).settled

/-- The entries of standard error: one for each line, and one for the reason why it could not
be read further. -/
def errorEntries (index : Nat) (id : String) (t : Transcript) : List LogEntry :=
  (t.lines.map FramedLine.said ++ t.flaw.toList).map fun text => ⟨index, id, none, .error, text⟩

/-- The entry of a line of standard output. -/
def lineEntry (index : Nat) (id : String) (l : FramedLine) : LogEntry :=
  ⟨index, id, l.classified.time, l.classified.lineClass, l.classified.text⟩

/-- The entry of standard output that cannot be read further. -/
def flawEntry (index : Nat) (id reason : String) : LogEntry :=
  ⟨index, id, none, .internalError, "stdout error: " ++ reason⟩

/-- The entry of an instance that has not said how it finished. -/
def closingEntry (index : Nat) (id : String) : LogEntry := ⟨index, id, none, .incomplete, ""⟩

/-- The entries of standard output: one for each line up to the first that stops, one for the
reason why it could not be read further if none does, and a closing one where the verdict is
that the instance is incomplete. -/
def outputEntries (index : Nat) (id : String) (state : Verdict) (t : Transcript) :
    List LogEntry :=
  (FramedLine.heard t.lines).map (lineEntry index id) ++
    (if ∃ l ∈ t.lines, l.Stops then [] else t.flaw.toList.map (flawEntry index id)) ++
    if t.verdictFrom state = .incomplete then [closingEntry index id] else []

/-! ## Line by line -/

theorem errorEntries_cons : errorEntries index id ⟨l :: ls, flaw⟩ =
    ⟨index, id, none, .error, l.said⟩ :: errorEntries index id ⟨ls, flaw⟩ := rfl

/-- A line that stops is the last that is heard. -/
theorem verdictFrom_of_stops (h : l.Stops) :
    verdictFrom state ⟨l :: ls, flaw⟩ = (state.after l.classified.effect).settled := by
  simp [verdictFrom, stateFrom, FramedLine.heard, h]

theorem verdictFrom_of_not_stops (h : ¬ l.Stops) : verdictFrom state ⟨l :: ls, flaw⟩ =
    verdictFrom (state.after l.classified.effect) ⟨ls, flaw⟩ := by
  simp [verdictFrom, stateFrom, FramedLine.heard, h]

/-- So its entry is the last but for the closing one. -/
theorem outputEntries_of_stops (h : l.Stops) : outputEntries index id state ⟨l :: ls, flaw⟩ =
    lineEntry index id l ::
      if (state.after l.classified.effect).settled = .incomplete then [closingEntry index id]
      else [] := by
  simp [outputEntries, verdictFrom_of_stops h, FramedLine.heard, h]

theorem outputEntries_of_not_stops (h : ¬ l.Stops) :
    outputEntries index id state ⟨l :: ls, flaw⟩ = lineEntry index id l ::
      outputEntries index id (state.after l.classified.effect) ⟨ls, flaw⟩ := by
  simp [outputEntries, verdictFrom_of_not_stops h, FramedLine.heard, h]

theorem outputEntries_nil : outputEntries index id state ⟨[], flaw⟩ =
    flaw.toList.map (flawEntry index id) ++
      if state.settled = .incomplete then [closingEntry index id] else [] := by
  rfl

/-- Every entry carries the index and the id of its instance. -/
theorem of_mem_errorEntries {e : LogEntry} (h : e ∈ errorEntries index id t) :
    e.index = index ∧ e.instanceId = id := by
  obtain ⟨text, -, rfl⟩ := List.mem_map.1 h
  exact ⟨rfl, rfl⟩

/-- The entries of standard output are of three kinds. -/
theorem mem_outputEntries_cases {e : LogEntry} (h : e ∈ outputEntries index id state t) :
    (∃ l, e = lineEntry index id l) ∨ (∃ reason, e = flawEntry index id reason) ∨
      e = closingEntry index id := by
  rcases List.mem_append.1 h with h | h
  · rcases List.mem_append.1 h with h | h
    · obtain ⟨l, -, rfl⟩ := List.mem_map.1 h
      exact .inl ⟨l, rfl⟩
    · split at h
      · cases h
      · obtain ⟨reason, -, rfl⟩ := List.mem_map.1 h
        exact .inr (.inl ⟨reason, rfl⟩)
  · split at h
    · exact .inr (.inr (List.mem_singleton.1 h))
    · cases h

theorem of_mem_outputEntries {e : LogEntry} (h : e ∈ outputEntries index id state t) :
    e.index = index ∧ e.instanceId = id := by
  rcases mem_outputEntries_cases h with ⟨l, rfl⟩ | ⟨reason, rfl⟩ | rfl <;> exact ⟨rfl, rfl⟩

end Transcript

end Conductor
