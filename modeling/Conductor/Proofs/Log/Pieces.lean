import Conductor.Proofs.Log.Framing
import Mathlib.Data.List.GetD
/-!
# Log — the pieces of a stream

The octets of a stream are cut behind each newline, and what is left behind the last one is
a piece too (`Framing.pieces`). Reading a closed stream line by line comes to its end and
gives the lines of these pieces in their order, in whatever chunks the octets arrive
(`OctetStream.cut_at_newlines`). Each call takes one piece away
(`OctetStream.readLine_pieces`), and what is known of the line at any moment of the call is
computed from the part of that piece that has arrived (`Framing.held_ofOctets`), so nothing
of a line before it is left.
-/

namespace Conductor

/-! ## Pieces -/

namespace Framing

variable {p q os rest : List UInt8} {ps : List (List UInt8)}

/-- Octets, cut behind each newline. -/
def pieces : List UInt8 → List (List UInt8)
  | [] => []
  | b :: bs =>
    if b = newline then [b] :: pieces bs
    else
      match pieces bs with
      | [] => [[b]]
      | p :: ps => (b :: p) :: ps

/-- What has arrived of a line without its newline goes in front of the next piece. -/
theorem pieces_append (h : newline ∉ p) (hp : p ≠ []) :
    pieces (p ++ os) = (p ++ (pieces os).headD []) :: (pieces os).tail := by
  induction p with
  | nil => exact absurd rfl hp
  | cons b p ih =>
    obtain ⟨hb, hrest⟩ := not_or.1 (mt List.mem_cons.2 h)
    have hb : b ≠ newline := Ne.symm hb
    rw [List.cons_append, pieces, if_neg hb]
    by_cases hnil : p = []
    · subst hnil
      cases hos : pieces os <;> simp [hos]
    · rw [ih hrest hnil]
      rfl

theorem pieces_newline : pieces (newline :: rest) = [newline] :: pieces rest := if_pos rfl

/-- The first piece ends with the first newline. -/
theorem pieces_append_newline (h : newline ∉ p) :
    pieces (p ++ newline :: rest) = (p ++ [newline]) :: pieces rest := by
  by_cases hp : p = []
  · rw [hp]
    exact pieces_newline
  · rw [pieces_append h hp, pieces_newline]
    rfl

/-- What has no newline is one piece. -/
theorem pieces_of_not_mem (h : newline ∉ p) (hp : p ≠ []) : pieces p = [p] := by
  have happend := @pieces_append p [] h hp
  simpa [pieces] using happend

/-- **Nothing is lost** by cutting. -/
theorem flatten_pieces (os : List UInt8) : (pieces os).flatten = os := by
  induction os with
  | nil => rfl
  | cons b os ih =>
    rw [pieces]
    split
    · rw [List.flatten_cons, ih]
      rfl
    · cases hos : pieces os with
      | nil =>
        rw [hos] at ih
        rw [← ih]
        rfl
      | cons p ps =>
        rw [hos] at ih
        rw [← ih]
        rfl

/-- Octets are none, have a first newline, or are one piece without any. -/
theorem octets_cases (os : List UInt8) :
    os = [] ∨ (∃ p rest, newline ∉ p ∧ os = p ++ newline :: rest) ∨ newline ∉ os ∧ os ≠ [] := by
  by_cases hnil : os = []
  · exact .inl hnil
  by_cases hmem : newline ∈ os
  · obtain ⟨p, rest, rfl, hp⟩ := List.eq_append_cons_of_mem hmem
    exact .inr (.inl ⟨p, rest, hp, rfl⟩)
  · exact .inr (.inr ⟨hmem, hnil⟩)

end Framing

open Framing

/-- The line of a piece: of one that is too long the length is told, of any other the text
without the newlines and carriage returns at its end. -/
def FramedLine.ofPiece (p : List UInt8) : FramedLine :=
  if maxLine < p.length then .oversized p.length
  else .text (Text.Utf8.lossy (p.rdropWhile isLineEnd))

namespace Framing

variable {b : LineBuffer} {p q : List UInt8} {ending : StreamEnd} {chunks : List (List UInt8)}
  {line : FramedLine} {rest : OctetStream}

/-- The line that has begun with the octets of a piece is that of the piece. -/
theorem LineBuffer.line_eq_ofPiece (p : List UInt8) : (ofOctets p).line = .ofPiece p := by
  by_cases hp : maxLine < p.length
  · simp only [ofOctets, line, FramedLine.ofPiece, if_pos hp]
  · simp only [ofOctets, line, FramedLine.ofPiece, if_neg hp, List.rdropWhile]

theorem lineOf_eq_ofPiece (p : List UInt8) : lineOf p = .ofPiece (p ++ [newline]) := by
  rw [← LineBuffer.line_ofOctets, LineBuffer.line_eq_ofPiece]

/-- No more than the longest line is kept. -/
theorem LineBuffer.kept_ofOctets (p : List UInt8) : (ofOctets p).kept.length ≤ maxLine := by
  unfold ofOctets
  split
  · exact Nat.zero_le _
  · rw [List.length_reverse]
    omega

/-! ## One line -/

/-- What is left of a closed stream without a newline is its last line. -/
theorem readOn_rest (h : newline ∉ chunks.flatten) (hne : p ++ chunks.flatten ≠ []) :
    readOn (.ofOctets p) .closed chunks =
      .line (.ofPiece (p ++ chunks.flatten)) ⟨[], .closed⟩ := by
  induction chunks generalizing p with
  | nil =>
    rw [List.flatten_nil, List.append_nil] at hne ⊢
    have hlength : (LineBuffer.ofOctets p).length = p.length := by
      unfold LineBuffer.ofOctets
      split <;> rfl
    rw [readOn, hlength, if_neg (mt List.length_eq_zero_iff.1 hne), LineBuffer.line_eq_ofPiece]
  | cons chunk chunks ih =>
    rw [List.flatten_cons, List.mem_append, not_or] at h
    rw [List.flatten_cons, ← List.append_assoc] at hne ⊢
    rw [readOn, splitLine_of_not_mem h.1]
    simp only [LineBuffer.absorb_ofOctets]
    exact ih h.2 hne

/-- What is known of the line while it is read: before the first chunk, and behind each
chunk that is taken in. -/
def held (b : LineBuffer) : List (List UInt8) → List LineBuffer
  | [] => [b]
  | chunk :: chunks =>
    match splitLine chunk with
    | (piece, none) => b :: held (b.absorb piece) chunks
    | (piece, some _) => [b, b.absorb piece]

/-- The line that is read is the one known of last. -/
theorem line_of_held (h : readOn b ending chunks = .line line rest) :
    (held b chunks).getLast?.map LineBuffer.line = some line := by
  induction chunks generalizing b with
  | nil =>
    cases ending with
    | closed =>
      simp only [readOn] at h
      split at h
      · cases h
      · cases h
        rfl
    | broken reason => cases h
    | silent => cases h
  | cons chunk chunks ih =>
    rcases splitLine_cases chunk with hsplit | ⟨piece, tail, hsplit, -, -⟩
    · simp only [readOn, hsplit] at h
      have hlast := ih h
      have hne : held (b.absorb chunk) chunks ≠ [] := by
        rintro hnil
        rw [hnil] at hlast
        cases hlast
      simp only [held, hsplit]
      rwa [List.getLast?_cons_of_ne_nil hne]
    · simp only [readOn, hsplit] at h
      cases h
      simp only [held, hsplit]
      rfl

/-- **What is known of a line** comes from the part of its piece that has arrived. -/
theorem held_ofOctets (hb : b ∈ held (.ofOctets q) chunks) :
    ∃ p, p <+: (pieces chunks.flatten).headD [] ∧ b = .ofOctets (q ++ p) := by
  induction chunks generalizing q with
  | nil => exact ⟨[], List.nil_prefix, by simpa [held] using hb⟩
  | cons chunk chunks ih =>
    rw [List.flatten_cons]
    by_cases hchunk : newline ∈ chunk
    · obtain ⟨head, tail, rfl, hhead⟩ := List.eq_append_cons_of_mem hchunk
      simp only [held, splitLine_append hhead, LineBuffer.absorb_ofOctets] at hb
      rw [List.append_assoc, List.cons_append, pieces_append_newline hhead]
      rcases List.mem_pair.1 hb with rfl | rfl
      · exact ⟨[], List.nil_prefix, by rw [List.append_nil]⟩
      · exact ⟨head ++ [newline], List.prefix_rfl, rfl⟩
    · simp only [held, splitLine_of_not_mem hchunk, LineBuffer.absorb_ofOctets] at hb
      rcases List.mem_cons.1 hb with rfl | hb
      · exact ⟨[], List.nil_prefix, by rw [List.append_nil]⟩
      obtain ⟨p, hp, rfl⟩ := ih hb
      by_cases hnil : chunk = []
      · subst hnil
        exact ⟨p, hp, by rw [List.append_nil]⟩
      · refine ⟨chunk ++ p, ?_, by rw [List.append_assoc]⟩
        rw [pieces_append hchunk hnil]
        exact List.prefix_append_right_inj chunk |>.2 hp

end Framing

/-! ## All lines -/

namespace OctetStream

variable {s t rest : OctetStream} {l : FramedLine} {ls : List FramedLine} {b : LineBuffer}

/-- **A line takes the first piece away**, and behind the last piece the stream has ended. -/
theorem readLine_pieces (h : s.ending = .closed) :
    (pieces s.chunks.flatten = [] ∧ s.readLine = .ended) ∨
      ∃ p rest, pieces s.chunks.flatten = p :: pieces rest.chunks.flatten ∧
        rest.ending = .closed ∧ s.readLine = .line (.ofPiece p) rest := by
  obtain ⟨chunks, ending⟩ := s
  subst h
  rcases octets_cases chunks.flatten with hnil | ⟨p, os, hp, hos⟩ | ⟨hmem, hne⟩
  · exact .inl ⟨congrArg pieces hnil, readOn_nil hnil⟩
  · obtain ⟨chunks', hrest, hread⟩ := @readOn_piece p [] os .closed chunks hp hos
    rw [List.nil_append, lineOf_eq_ofPiece] at hread
    exact .inr ⟨_, ⟨chunks', .closed⟩, by rw [hos, hrest, pieces_append_newline hp], rfl, hread⟩
  · exact .inr ⟨_, ⟨[], .closed⟩, pieces_of_not_mem hmem hne, rfl, readOn_rest (p := []) hmem hne⟩

/-- Lines are read from a stream one after another, which leaves another. -/
inductive Reads : OctetStream → List FramedLine → OctetStream → Prop
  | refl (s : OctetStream) : Reads s [] s
  | line {s t u : OctetStream} {l : FramedLine} {ls : List FramedLine}
    (head : s.readLine = .line l t) (tail : Reads t ls u) : Reads s (l :: ls) u

/-- What is known of the next line while it is read. -/
def buffers (s : OctetStream) : List LineBuffer := held .empty s.chunks

/-- **The lines read are those of the first pieces**, and the others are left. -/
theorem Reads.pieces_eq (h : Reads s ls t) (hclosed : s.ending = .closed) :
    t.ending = .closed ∧ ∃ ps, pieces s.chunks.flatten = ps ++ pieces t.chunks.flatten ∧
      ls = ps.map .ofPiece := by
  induction h with
  | refl s => exact ⟨hclosed, [], rfl, rfl⟩
  | line head tail ih =>
    rcases readLine_pieces hclosed with ⟨-, hended⟩ | ⟨p, rest, hpieces, hrest, hline⟩
    · cases hended.symm.trans head
    · cases hline.symm.trans head
      obtain ⟨ht, ps, hps, rfl⟩ := ih hrest
      exact ⟨ht, p :: ps, by rw [hpieces, hps, List.cons_append], rfl⟩

/-- **Reading comes to its end** behind the lines of all pieces. -/
theorem reads_pieces (hclosed : s.ending = .closed) :
    ∃ t, Reads s ((pieces s.chunks.flatten).map .ofPiece) t ∧ t.readLine = .ended := by
  generalize hps : pieces s.chunks.flatten = ps
  induction ps generalizing s with
  | nil =>
    rcases readLine_pieces hclosed with ⟨-, hended⟩ | ⟨p, rest, hpieces, -, -⟩
    · exact ⟨s, .refl s, hended⟩
    · cases hps.symm.trans hpieces
  | cons p ps ih =>
    rcases readLine_pieces hclosed with ⟨hnil, -⟩ | ⟨p', rest, hpieces, hrest, hline⟩
    · cases hps.symm.trans hnil
    · obtain ⟨rfl, htail⟩ := List.cons.inj (hps.symm.trans hpieces)
      obtain ⟨t, hreads, hended⟩ := ih hrest htail.symm
      exact ⟨t, .line hline hreads, hended⟩

/-- **A closed stream is cut at its newlines.** In whatever chunks its octets arrive, reading
line by line comes to an end, and has then given the lines of its pieces in their order and
no others. The pieces are the octets of the stream. While a line is read, no more than the
longest line is kept, and what is known of it comes from its own piece alone. -/
theorem cut_at_newlines (chunks : List (List UInt8)) :
    (pieces chunks.flatten).flatten = chunks.flatten ∧
      (∀ ls, (∃ t, Reads ⟨chunks, .closed⟩ ls t ∧ t.readLine = .ended) ↔
        ls = (pieces chunks.flatten).map .ofPiece) ∧
      ∀ ls t, Reads ⟨chunks, .closed⟩ ls t →
        (∀ l rest, t.readLine = .line l rest → t.buffers.getLast?.map LineBuffer.line = some l) ∧
        ∀ b ∈ t.buffers, b.kept.length ≤ maxLine ∧
          ∃ p, p <+: (pieces chunks.flatten).getD ls.length [] ∧ b = .ofOctets p := by
  refine ⟨flatten_pieces _, fun ls => ⟨?_, ?_⟩, fun ls t h => ⟨fun l rest => line_of_held, ?_⟩⟩
  · rintro ⟨t, h, hended⟩
    obtain ⟨hclosed, ps, hps, rfl⟩ := h.pieces_eq rfl
    -- nothing is left where the stream has ended
    rcases readLine_pieces hclosed with ⟨hnil, -⟩ | ⟨p, rest, -, -, hline⟩
    · rw [hnil, List.append_nil] at hps
      rw [← hps]
    · cases hended.symm.trans hline
  · rintro rfl
    exact reads_pieces rfl
  · intro b hb
    obtain ⟨-, ps, hps, rfl⟩ := h.pieces_eq rfl
    obtain ⟨p, hp, rfl⟩ := held_ofOctets (q := []) hb
    refine ⟨LineBuffer.kept_ofOctets _, p, ?_, rfl⟩
    rwa [List.length_map, show pieces chunks.flatten = _ from hps,
      List.getD_append_right _ _ _ _ le_rfl, Nat.sub_self, List.getD_eq_getElem?_getD,
      ← List.head?_eq_getElem?, ← List.headD_eq_head?_getD]

namespace Streamed

/-- A line that is too long by two octets, one with a carriage return before its newline, and
one that is not ended; they arrive in chunks of which none ends with a line. -/
def chunks : List (List UInt8) := [List.replicate maxLine 120, [120, 10, 97], [13, 10, 98]]

theorem pieces_chunks : pieces chunks.flatten =
    [List.replicate maxLine 120 ++ [120, 10], [97, 13, 10], [98]] := by
  have hlong : newline ∉ List.replicate maxLine (120 : UInt8) ++ [120] := by
    rw [List.mem_append, List.mem_replicate]
    decide
  have hfirst := @pieces_append_newline _ [97, 13, 10, 98] hlong
  simp only [List.append_assoc] at hfirst
  exact hfirst.trans (congrArg _ (by decide))

end Streamed

/-- The long line is told of only, and the other two are read as their texts. -/
theorem cut_at_newlines_oversized :
    ∃ t, Reads ⟨Streamed.chunks, .closed⟩ [.oversized 1048578, .text "a", .text "b"] t ∧
      t.readLine = .ended ∧ ∀ b ∈ t.buffers, b.kept.length ≤ maxLine := by
  obtain ⟨-, hlines, hbuffers⟩ := cut_at_newlines Streamed.chunks
  have hlong :
      FramedLine.ofPiece (List.replicate maxLine 120 ++ [120, 10]) = .oversized 1048578 := by
    rw [FramedLine.ofPiece, List.length_append, List.length_replicate, if_pos (by decide)]
    rfl
  obtain ⟨t, hreads, hended⟩ := (hlines [.oversized 1048578, .text "a", .text "b"]).2 (by
    rw [Streamed.pieces_chunks, List.map_cons, hlong]
    rfl)
  exact ⟨t, hreads, hended, fun b hb => ((hbuffers _ t hreads).2 b hb).1⟩

end OctetStream

end Conductor
