import Conductor.Proofs.Text.Separator
import Conductor.Selector
import Mathlib.Data.String.Basic
/-!
# Selectors — what is read as one, and what is wrong with the rest

A text is read as a selector exactly if it is the text of one (`parse_eq_ok_iff`): it has
one colon, and what stands on the two sides are parts. So a reader that splits the text at
its colons need not look beyond the third piece (`parse_eq_split`). The parts are glued
without escaping when a selector is made of a kind and an implementation; but a colon in
one of them is one too many in the whole, which is then refused
(`ofParts_eq_ok_iff`). A text that is none has a first fault (`fault`), and that is the one
reported (`parse_eq_error_iff`).
-/

namespace Conductor

namespace Selector

variable {s kind implementation : String} {x : Selector} {e : SelectorError}

/-- What is wrong with a text that is no selector. Of several faults the first of the list
of errors counts, and each but the first carries the text. -/
def fault (s : String) : SelectorError :=
  if s = "" then .empty
  else if Text.HasBlank s then .blank s
  else if s.toList.count ':' = 0 then .missingSeparator s
  else if 1 < s.toList.count ':' then .tooManySeparators s
  else .emptyPart s

/-! ## Texts with one colon -/

/-- The glued text is blank where one of its parts is. -/
theorem hasBlank_glued :
    Text.HasBlank (kind ++ ":" ++ implementation) ↔
      Text.HasBlank kind ∨ Text.HasBlank implementation := by
  have hcolon : Text.isBlank ':' = false := by decide
  simp [Text.HasBlank, or_and_right, exists_or, hcolon]

/-- What stands before the first colon and behind it. -/
theorem cut_glued {k i : List Char} (hk : ':' ∉ k) :
    (k ++ ':' :: i).takeWhile (· ≠ ':') = k ∧ ((k ++ ':' :: i).dropWhile (· ≠ ':')).drop 1 = i := by
  have hne : ∀ c ∈ k, decide (c ≠ ':') = true := by
    rintro c hc
    exact decide_eq_true fun heq => hk (heq ▸ hc)
  rw [List.takeWhile_append_of_pos hne, List.dropWhile_append_of_pos hne]
  simp

/-- A text with one colon is glued of two texts without. -/
theorem exists_glued (h : s.toList.count ':' = 1) :
    ∃ kind implementation : String, s = kind ++ ":" ++ implementation ∧
      ':' ∉ kind.toList ∧ ':' ∉ implementation.toList := by
  have hmem : ':' ∈ s.toList := List.count_pos_iff.1 (by omega)
  obtain ⟨k, i, hs⟩ := List.append_of_mem hmem
  rw [hs, List.count_append, List.count_cons_self] at h
  refine ⟨String.ofList k, String.ofList i, String.toList_injective (by simpa using hs), ?_, ?_⟩
  · rw [String.toList_ofList]
    exact List.count_eq_zero.1 (by omega)
  · rw [String.toList_ofList]
    exact List.count_eq_zero.1 (by omega)

/-- The reading of a glued text depends on its parts alone. -/
theorem parse_glued (hkind : ':' ∉ kind.toList) (himplementation : ':' ∉ implementation.toList)
    (hblank : ¬ Text.HasBlank (kind ++ ":" ++ implementation)) :
    parse (kind ++ ":" ++ implementation) =
      if h : IsSelectorPart kind ∧ IsSelectorPart implementation then
        .ok ⟨kind, implementation, h.1, h.2⟩
      else .error (.emptyPart (kind ++ ":" ++ implementation)) := by
  have hchars : (kind ++ ":" ++ implementation).toList =
      kind.toList ++ ':' :: implementation.toList := by simp
  have hne : kind ++ ":" ++ implementation ≠ "" := by
    intro heq
    simp [heq] at hchars
  have hcount : (kind ++ ":" ++ implementation).toList.count ':' = 1 := by
    rw [hchars, List.count_append, List.count_cons_self, List.count_eq_zero.2 hkind,
      List.count_eq_zero.2 himplementation]
  obtain ⟨htake, hdrop⟩ := cut_glued (i := implementation.toList) hkind
  rw [parse, if_neg hne, if_neg hblank, hcount]
  simp only [hchars, htake, hdrop, String.ofList_toList]

/-! ## What is read -/

/-- **What is read is the text of a selector**, and the text of a selector is read as it. -/
theorem parse_eq_ok_iff : parse s = .ok x ↔ x.text = s := by
  constructor
  · intro h
    have hok := h
    unfold parse at h
    split at h
    · cases h
    split at h
    · cases h
    rename_i hblank
    split at h
    · cases h
    · rename_i hcount
      obtain ⟨kind, implementation, rfl, hkind, himplementation⟩ := exists_glued hcount
      rw [parse_glued hkind himplementation hblank] at hok
      split at hok
      · cases hok
        rfl
      · cases hok
    · cases h
  · rintro rfl
    obtain ⟨kind, implementation, hkind, himplementation⟩ := x
    have hblank : ¬ Text.HasBlank (kind ++ ":" ++ implementation) := by
      rw [hasBlank_glued, not_or]
      exact ⟨hkind.2.1, himplementation.2.1⟩
    rw [text, parse_glued hkind.2.2 himplementation.2.2 hblank, dif_pos ⟨hkind, himplementation⟩]

/-- The text of a selector has one colon. -/
theorem count_text (x : Selector) : x.text.toList.count ':' = 1 := by
  have hchars : x.text.toList = x.kind.toList ++ ':' :: x.implementation.toList := by simp [text]
  rw [hchars, List.count_append, List.count_cons_self, List.count_eq_zero.2 x.kind_isPart.2.2,
    List.count_eq_zero.2 x.implementation_isPart.2.2]

/-- **A kind and an implementation make a selector** if they are the parts of one, and it
has these parts. -/
theorem ofParts_eq_ok_iff :
    ofParts kind implementation = .ok x ↔ x.kind = kind ∧ x.implementation = implementation := by
  rw [ofParts, parse_eq_ok_iff]
  refine ⟨fun h => ?_, fun ⟨hkind, himplementation⟩ => by rw [text, hkind, himplementation]⟩
  have hchars : x.kind.toList ++ ':' :: x.implementation.toList =
      kind.toList ++ ':' :: implementation.toList := by
    simpa [text] using congrArg String.toList h
  -- one colon is in the whole, so the kind has none
  have hcount := x.count_text
  rw [h] at hcount
  have hnone : ':' ∉ kind.toList := by
    intro hmem
    have hpos := List.count_pos_iff.2 hmem
    simp only [String.toList_append, List.count_append] at hcount
    have hone : ":".toList.count ':' = 1 := by decide
    omega
  obtain ⟨hkind, himplementation⟩ := Text.cut_first x.kind_isPart.2.2 hnone hchars
  exact ⟨String.toList_injective hkind, String.toList_injective himplementation⟩

/-- A reader that splits a text at its colons looks at three pieces at most. -/
theorem parse_eq_split (hne : s ≠ "") (hblank : ¬ Text.HasBlank s) :
    parse s = match s.toList.splitOn ':' with
      | [_] => .error (.missingSeparator s)
      | [k, i] =>
        if h : IsSelectorPart (String.ofList k) ∧ IsSelectorPart (String.ofList i) then
          .ok ⟨String.ofList k, String.ofList i, h.1, h.2⟩
        else .error (.emptyPart s)
      | _ => .error (.tooManySeparators s) := by
  match hcount : s.toList.count ':' with
  | 0 =>
    rw [List.splitOn_eq_singleton (List.count_eq_zero.1 hcount), parse, if_neg hne, if_neg hblank,
      hcount]
    rfl
  | 1 =>
    obtain ⟨kind, implementation, rfl, hkind, himplementation⟩ := exists_glued hcount
    have hpieces : (kind ++ ":" ++ implementation).toList.splitOn ':' =
        [kind.toList, implementation.toList] := by
      have hchars : (kind ++ ":" ++ implementation).toList =
          kind.toList ++ ':' :: implementation.toList := by simp
      rw [hchars, List.splitOn_append_cons_self, List.splitOn_eq_singleton hkind,
        List.splitOn_eq_singleton himplementation]
      rfl
    rw [parse_glued hkind himplementation hblank, hpieces]
    simp only [String.ofList_toList]
  | n + 2 =>
    have hlength := Text.length_splitOn ':' s.toList
    rw [parse, if_neg hne, if_neg hblank, hcount]
    match hpieces : s.toList.splitOn ':' with
    | [] | [_] | [_, _] =>
      rw [hpieces, hcount] at hlength
      simp at hlength
    | _ :: _ :: _ :: _ => rfl

/-! ## What is refused -/

/-- A text that is refused is refused for its first fault. -/
theorem eq_fault_of_parse (h : parse s = .error e) : e = fault s := by
  unfold parse at h
  unfold fault
  split at h
  · rename_i hempty
    rw [if_pos hempty]
    exact (Except.error.inj h).symm
  rename_i hempty
  split at h
  · rename_i hblank
    rw [if_neg hempty, if_pos hblank]
    exact (Except.error.inj h).symm
  rename_i hblank
  rw [if_neg hempty, if_neg hblank]
  split at h
  · rename_i hcount
    rw [if_pos hcount]
    exact (Except.error.inj h).symm
  · rename_i hcount
    rw [hcount, if_neg one_ne_zero, if_neg (lt_irrefl 1)]
    dsimp only at h
    split at h
    · cases h
    · exact (Except.error.inj h).symm
  · rename_i hzero hone
    have hmany : 1 < s.toList.count ':' := by
      have hzero : s.toList.count ':' ≠ 0 := hzero
      have hone : s.toList.count ':' ≠ 1 := hone
      omega
    rw [if_neg hzero, if_pos hmany]
    exact (Except.error.inj h).symm

/-- **What is no text of a selector is refused**, for its first fault. -/
theorem parse_eq_error_iff : parse s = .error e ↔ (∀ x : Selector, x.text ≠ s) ∧ e = fault s := by
  constructor
  · intro h
    refine ⟨fun x hx => ?_, eq_fault_of_parse h⟩
    rw [parse_eq_ok_iff.2 hx] at h
    cases h
  · rintro ⟨hnone, rfl⟩
    cases hparse : parse s with
    | ok x => exact absurd (parse_eq_ok_iff.1 hparse) (hnone x)
    | error e => rw [eq_fault_of_parse hparse]

/-! ## The grammar -/

/-- **Reading is exact.** A text is read exactly if it is a kind and an implementation with
a colon between them, as a selector of the two; the text of every selector is read as it,
and what is read has the text that it was read from. A kind and an implementation make a
selector exactly if they are parts, and then of these parts. Everything else is refused,
for its first fault. -/
theorem reading_exact :
    (∀ s kind implementation : String,
      (∃ x, parse s = .ok x ∧ x.kind = kind ∧ x.implementation = implementation) ↔
        IsSelectorPart kind ∧ IsSelectorPart implementation ∧
          s = kind ++ ":" ++ implementation) ∧
    (∀ (s : String) (x : Selector), parse s = .ok x ↔ x.text = s) ∧
    (∀ kind implementation : String,
      ((∃ x, ofParts kind implementation = .ok x) ↔
        IsSelectorPart kind ∧ IsSelectorPart implementation) ∧
      ∀ x, ofParts kind implementation = .ok x ↔
        x.kind = kind ∧ x.implementation = implementation) ∧
    ∀ (s : String) (e : SelectorError),
      parse s = .error e ↔ (∀ x : Selector, x.text ≠ s) ∧ e = fault s := by
  refine ⟨fun s kind implementation => ⟨?_, ?_⟩, fun s x => parse_eq_ok_iff,
    fun kind implementation => ⟨⟨?_, fun ⟨hkind, himplementation⟩ => ?_⟩,
      fun x => ofParts_eq_ok_iff⟩, fun s e => parse_eq_error_iff⟩
  · rintro ⟨x, hparse, rfl, rfl⟩
    exact ⟨x.kind_isPart, x.implementation_isPart, (parse_eq_ok_iff.1 hparse).symm⟩
  · rintro ⟨hkind, himplementation, rfl⟩
    exact ⟨⟨kind, implementation, hkind, himplementation⟩, parse_eq_ok_iff.2 rfl, rfl, rfl⟩
  · rintro ⟨x, hx⟩
    obtain ⟨rfl, rfl⟩ := ofParts_eq_ok_iff.1 hx
    exact ⟨x.kind_isPart, x.implementation_isPart⟩
  · exact ⟨⟨kind, implementation, hkind, himplementation⟩, ofParts_eq_ok_iff.2 ⟨rfl, rfl⟩⟩

end Selector

end Conductor
