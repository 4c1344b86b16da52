import Conductor.Proofs.Log.Transcript
import Conductor.Proofs.Text.Separator
import Conductor.Proofs.Text.Utf8
import Mathlib.Data.List.DropRight
/-!
# Log — how a stream is cut into lines

The transcript of a stream does not depend on the chunks in which it arrives: a closed
stream whose octets are pieces without a newline, each followed by one, has a line for
each piece (`OctetStream.transcript_of_pieces`). What is known of a line that has begun is
computed from its octets alone (`LineBuffer.ofOctets`), and taking in a chunk takes it to
that of the octets with the chunk (`LineBuffer.absorb_ofOctets`).
-/

namespace Conductor

namespace Framing

variable {b : UInt8} {piece p q rest : List UInt8} {ending : StreamEnd}
  {chunks : List (List UInt8)}

/-! ## The octets of a line -/

/-- The line that has begun with the octets given. -/
def LineBuffer.ofOctets (p : List UInt8) : LineBuffer :=
  if maxLine < p.length then ⟨[], p.length⟩ else ⟨p.reverse, p.length⟩

/-- The line of a piece with a newline behind it. -/
def lineOf (p : List UInt8) : FramedLine :=
  if maxLine < p.length + 1 then .oversized (p.length + 1)
  else .text (Text.Utf8.lossy (p.rdropWhile isLineEnd))

/-- **Octets are taken in** behind those before them. -/
theorem LineBuffer.absorb_ofOctets (p q : List UInt8) :
    (LineBuffer.ofOctets p).absorb q = .ofOctets (p ++ q) := by
  by_cases hp : maxLine < p.length
  · -- it was too long before, and stays so
    have hpq : maxLine < p.length + q.length := Nat.lt_add_right _ hp
    simp only [absorb, ofOctets, List.length_append, if_pos hp, if_pos hpq]
  · simp only [absorb, ofOctets, List.length_append, if_neg hp, List.reverseAux_eq,
      List.reverse_append]

/-- The line ends with its newline. -/
theorem LineBuffer.line_ofOctets (p : List UInt8) :
    (LineBuffer.ofOctets (p ++ [newline])).line = lineOf p := by
  by_cases hp : maxLine < p.length + 1
  · simp only [ofOctets, line, lineOf, List.length_append, List.length_singleton, if_pos hp]
  · have hcut : ((p ++ [newline]).reverse.dropWhile isLineEnd).reverse = p.rdropWhile isLineEnd :=
      List.rdropWhile_concat_pos _ _ _ (by decide)
    simp only [ofOctets, line, lineOf, List.length_append, List.length_singleton, if_neg hp, hcut]

/-- **A piece without line ends** is the text of its line, unless it is too long. -/
theorem lineOf_text {t : String} (hlength : (Text.Utf8.ofString t).length + 1 ≤ maxLine)
    (h : ∀ b ∈ Text.Utf8.ofString t, isLineEnd b = false) :
    lineOf (Text.Utf8.ofString t) = .text t := by
  have hkeep : (Text.Utf8.ofString t).rdropWhile isLineEnd = Text.Utf8.ofString t :=
    List.rdropWhile_eq_self_iff.2 fun hne => by simp [h _ (List.getLast_mem hne)]
  rw [lineOf, if_neg (Nat.not_lt.2 hlength), hkeep, Text.Utf8.lossy_ofString]

/-! ## Reading a line -/

/-- A chunk without a newline is taken in as it is. -/
theorem splitLine_of_not_mem (h : newline ∉ p) : splitLine p = (p, none) := by
  have hp : ∀ b ∈ p, decide (b ≠ newline) = true := fun b hb => by
    rw [decide_eq_true_eq]
    exact ne_of_mem_of_not_mem hb h
  rw [splitLine, List.span_eq_takeWhile_dropWhile, List.takeWhile_eq_self_iff.2 hp,
    List.dropWhile_eq_nil_iff.2 hp]

/-- Any other is cut behind its first newline. -/
theorem splitLine_append (h : newline ∉ p) :
    splitLine (p ++ newline :: rest) = (p ++ [newline], some rest) := by
  have hp : ∀ b ∈ p, decide (b ≠ newline) = true := fun b hb => by
    rw [decide_eq_true_eq]
    exact ne_of_mem_of_not_mem hb h
  rw [splitLine, List.span_eq_takeWhile_dropWhile, List.takeWhile_append_of_pos hp,
    List.dropWhile_append_of_pos hp, List.takeWhile_cons_of_neg (by simp),
    List.dropWhile_cons_of_neg (by simp), List.append_nil]

/-- **A line is read** up to its newline, whatever the chunks are. -/
theorem readOn_piece (hpiece : newline ∉ piece)
    (h : chunks.flatten = piece ++ newline :: rest) :
    ∃ chunks', chunks'.flatten = rest ∧
      readOn (.ofOctets p) ending chunks = .line (lineOf (p ++ piece)) ⟨chunks', ending⟩ := by
  induction chunks generalizing p piece with
  | nil => simp at h
  | cons chunk chunks ih =>
    rw [List.flatten_cons] at h
    by_cases hchunk : newline ∈ chunk
    · -- the newline of the line is the first of the chunk
      obtain ⟨head, tail, rfl, hhead⟩ := List.eq_append_cons_of_mem hchunk
      rw [List.append_assoc, List.cons_append] at h
      obtain ⟨rfl, rfl⟩ := Text.cut_first hhead hpiece h
      refine ⟨tail :: chunks, rfl, ?_⟩
      rw [readOn, splitLine_append hhead]
      simp only [LineBuffer.absorb_ofOctets, ← List.append_assoc, LineBuffer.line_ofOctets]
    · obtain ⟨more, rfl, hmore⟩ : ∃ more, piece = chunk ++ more ∧
          chunks.flatten = more ++ newline :: rest := by
        rcases List.append_eq_append_iff.1 h with ⟨more, hpiece', hmore⟩ | ⟨more, rfl, hmore⟩
        · exact ⟨more, hpiece', hmore⟩
        · cases more with
          | nil => exact ⟨[], by simp, by simpa using hmore.symm⟩
          | cons x more =>
            obtain ⟨rfl, -⟩ := List.cons.inj hmore
            exact absurd (by simp) hchunk
      obtain ⟨chunks', hrest, hread⟩ :=
        @ih more (p ++ chunk) (fun hmem => hpiece (List.mem_append_right _ hmem)) hmore
      refine ⟨chunks', hrest, ?_⟩
      rw [readOn, splitLine_of_not_mem hchunk]
      simp only [LineBuffer.absorb_ofOctets]
      rw [hread, List.append_assoc]

/-- There is no line in a closed stream without octets. -/
theorem readOn_nil (h : chunks.flatten = []) : readOn .empty .closed chunks = .ended := by
  induction chunks with
  | nil => rfl
  | cons chunk chunks ih =>
    obtain ⟨rfl, hchunks⟩ := List.append_eq_nil_iff.1 h
    exact ih hchunks

/-- What a reading tells of the end of the stream. -/
def Reading.Tells (ending : StreamEnd) : Reading → Prop
  | .line _ rest => rest.ending = ending
  | .ended => ending = .closed
  | .broken reason => ending = .broken reason
  | .waiting => ending = .silent

/-- **The end of a stream** is what comes once there is no line, and stays behind a line. -/
theorem readOn_tells (buffer : LineBuffer) (ending : StreamEnd) (chunks : List (List UInt8)) :
    (readOn buffer ending chunks).Tells ending := by
  induction chunks generalizing buffer with
  | nil =>
    cases ending with
    | closed =>
      rw [readOn]
      split <;> rfl
    | broken reason => rfl
    | silent => rfl
  | cons chunk chunks ih =>
    rcases splitLine_cases chunk with hsplit | ⟨piece, rest, hsplit, -, -⟩
    · simp only [readOn, hsplit]
      exact ih _
    · simp only [readOn, hsplit]
      rfl

end Framing

namespace OctetStream

open Framing

variable {s rest : OctetStream} {line : FramedLine} {pieces : List (List UInt8)}

theorem readLine_tells (s : OctetStream) : s.readLine.Tells s.ending :=
  readOn_tells .empty s.ending s.chunks

/-- The end of the stream stays as it is behind a line. -/
theorem ending_of_line (h : s.readLine = .line line rest) : rest.ending = s.ending := by
  simpa only [h, Reading.Tells] using s.readLine_tells

theorem ending_of_ended (h : s.readLine = .ended) : s.ending = .closed := by
  simpa only [h, Reading.Tells] using s.readLine_tells

theorem ending_of_broken {reason : String} (h : s.readLine = .broken reason) :
    s.ending = .broken reason := by
  simpa only [h, Reading.Tells] using s.readLine_tells

theorem ending_of_waiting (h : s.readLine = .waiting) : s.ending = .silent := by
  simpa only [h, Reading.Tells] using s.readLine_tells

/-- A closed stream ends or has a line. -/
theorem readLine_closed (h : s.ending = .closed) :
    s.readLine = .ended ∨ ∃ line rest, s.readLine = .line line rest ∧ rest.ending = .closed := by
  cases hread : s.readLine with
  | ended => exact .inl rfl
  | line l rest => exact .inr ⟨l, rest, rfl, (ending_of_line hread).trans h⟩
  | broken reason => cases h.symm.trans (ending_of_broken hread)
  | waiting => cases h.symm.trans (ending_of_waiting hread)

/-- **A stream of pieces** without a newline, each with one behind it, has a line for each
of them. -/
theorem transcript_of_pieces (h : ∀ p ∈ pieces, newline ∉ p) (hclosed : s.ending = .closed)
    (hs : s.chunks.flatten = pieces.flatMap (· ++ [newline])) :
    s.transcript = ⟨pieces.map lineOf, none⟩ := by
  obtain ⟨chunks, ending⟩ := s
  subst hclosed
  induction pieces generalizing chunks with
  | nil => exact transcript_of_ended (readOn_nil hs)
  | cons p pieces ih =>
    rw [List.flatMap_cons, List.append_assoc, List.singleton_append] at hs
    obtain ⟨chunks', hrest, hread⟩ :=
      @readOn_piece p [] _ .closed chunks (h p (by simp)) hs
    rw [List.nil_append] at hread
    rw [@transcript_of_line ⟨chunks, .closed⟩ ⟨chunks', .closed⟩ _ hread,
      ih (fun q hq => h q (List.mem_cons_of_mem _ hq)) chunks' hrest]
    rfl

end OctetStream

end Conductor
