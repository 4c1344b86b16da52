import Mathlib.Data.String.Basic
/-!
# Text — splitting at a character

`String.splitOn` walks over a text by positions in its octets. Splitting at one character
gives what splitting the list of characters gives (`splitOn_char`), for which there is a
theory. The induction is on the characters that are still ahead, behind those of the pieces
that are done (`l`) and those of the piece at hand (`m`).
-/

namespace Conductor

namespace Text

open String

theorem splitOnAux_eq (c : Char) (l m r : List Char) (acc : List String) :
    splitOnAux (ofList (l ++ m ++ r)) (ofList [c]) ⟨utf8Len l⟩ ⟨utf8Len l + utf8Len m⟩ 0 acc =
      acc.reverse ++ (List.splitOnPPrepend (· == c) r m.reverse).map ofList := by
  induction r generalizing l m acc with
  | nil =>
    have hend : Pos.Raw.atEnd (ofList (l ++ m ++ [])) ⟨utf8Len l + utf8Len m⟩ = true := by
      simp [-ofList_append, atEnd_iff, rawEndPos_ofList]
    rw [splitOnAux, if_pos hend, extract_of_valid l m []]
    simp
  | cons d r ih =>
    have hget : Pos.Raw.get (ofList (l ++ m ++ d :: r)) ⟨utf8Len l + utf8Len m⟩ = d := by
      simpa [-ofList_append] using get_of_valid (l ++ m) (d :: r)
    have hnext : Pos.Raw.next (ofList (l ++ m ++ d :: r)) ⟨utf8Len l + utf8Len m⟩ =
        ⟨utf8Len l + utf8Len m + d.utf8Size⟩ := by
      simpa [-ofList_append] using next_of_valid (l ++ m) d r
    have hend : ¬ (Pos.Raw.atEnd (ofList (l ++ m ++ d :: r)) ⟨utf8Len l + utf8Len m⟩ = true) := by
      have hsize := d.utf8Size_pos
      simp only [atEnd_iff, rawEndPos_ofList, utf8Len_append, utf8Len_cons, Pos.Raw.mk_le_mk]
      omega
    -- the separator is read from its beginning, and is over behind one character
    have hseparator : Pos.Raw.get (ofList [c]) 0 = c := by simpa using get_of_valid [] [c]
    have hbehind : Pos.Raw.next (ofList [c]) 0 = ⟨c.utf8Size⟩ := by
      simpa using next_of_valid [] c []
    have hover : Pos.Raw.atEnd (ofList [c]) ⟨c.utf8Size⟩ = true := by
      rw [atEnd_iff, rawEndPos_ofList]
      simp
    rw [splitOnAux, if_neg hend, hget, hseparator]
    dsimp only
    rw [hbehind, hnext, if_pos hover]
    by_cases hdc : d = c
    · subst hdc
      have hback : (⟨utf8Len l + utf8Len m + d.utf8Size⟩ : Pos.Raw).unoffsetBy ⟨d.utf8Size⟩ =
          ⟨utf8Len l + utf8Len m⟩ := by simp [Pos.Raw.unoffsetBy]
      rw [if_pos (beq_self_eq_true d), hback, extract_of_valid l m (d :: r)]
      simpa [-ofList_append, Nat.add_assoc, List.splitOnPPrepend_cons_eq_if] using
        ih (l ++ m ++ [d]) [] (ofList m :: acc)
    · have hstay : (⟨utf8Len l + utf8Len m⟩ : Pos.Raw).unoffsetBy 0 = ⟨utf8Len l + utf8Len m⟩ := by
        simp [Pos.Raw.unoffsetBy]
      have hne : ¬ (d == c) = true := by simpa using hdc
      rw [if_neg hne, hstay, hnext]
      simpa [-ofList_append, Nat.add_assoc, List.splitOnPPrepend_cons_eq_if, hne] using
        ih l (m ++ [d]) acc

/-- **Splitting a text at a character** splits its characters. -/
theorem splitOn_char (s : String) (c : Char) :
    s.splitOn (ofList [c]) = (s.toList.splitOn c).map ofList := by
  have hne : ¬ (ofList [c] == "") = true := by simp
  rw [String.splitOn, if_neg hne]
  simpa [List.splitOn_eq_splitOnP, -ofList_append] using splitOnAux_eq c [] [] s.toList []

end Text

end Conductor
