import Mathlib.Data.List.Basic
/-!
# Text — separators

When two texts are glued with a separator between them, the whole can be cut at
the separator in one way if it does not occur on one side. A separator of
several characters, the first of which does not occur again in it, never overlaps
itself; so where it is found in two places of a whole, one lies behind the other
(`marker_cases`). And where it is found beside a separator that does not occur in
it, it lies on one side (`marker_beside`), so among texts joined by separators it
lies in one of them (`marker_in_join`).
-/

namespace Conductor

namespace Text

variable {α : Type} {a : α} {xs xs' ys ys' marker : List α}

/-- Cutting behind equally many separators. -/
theorem cut_counted [DecidableEq α] (h : xs.count a = xs'.count a)
    (heq : xs ++ a :: ys = xs' ++ a :: ys') : xs = xs' ∧ ys = ys' := by
  rcases List.append_eq_append_iff.1 heq with ⟨zs, rfl, hzs⟩ | ⟨zs, rfl, hzs⟩
  · cases zs with
    | nil => simpa using hzs
    | cons z zs =>
      obtain ⟨rfl, -⟩ := List.cons.inj hzs
      simp at h
  · cases zs with
    | nil => simpa using hzs.symm
    | cons z zs =>
      obtain ⟨rfl, -⟩ := List.cons.inj hzs
      simp at h

/-- Cutting in front of the first of some characters. -/
theorem cut_before {p : α → Prop} {c c' : α} (h : ∀ x ∈ xs, ¬ p x) (h' : ∀ x ∈ xs', ¬ p x)
    (hc : p c) (hc' : p c') (heq : xs ++ c :: ys = xs' ++ c' :: ys') :
    xs = xs' ∧ c :: ys = c' :: ys' := by
  rcases List.append_eq_append_iff.1 heq with ⟨zs, rfl, hzs⟩ | ⟨zs, rfl, hzs⟩
  · cases zs with
    | nil => simpa using hzs
    | cons z zs =>
      obtain ⟨rfl, -⟩ := List.cons.inj hzs
      exact absurd hc (h' c (by simp))
  · cases zs with
    | nil => simpa using hzs.symm
    | cons z zs =>
      obtain ⟨rfl, -⟩ := List.cons.inj hzs
      exact absurd hc' (h c' (by simp))

/-- Cutting at the first separator. -/
theorem cut_first (h : a ∉ xs) (h' : a ∉ xs') (heq : xs ++ a :: ys = xs' ++ a :: ys') :
    xs = xs' ∧ ys = ys' := by
  obtain ⟨hxs, hys⟩ := cut_before (p := (· = a)) (fun x hx heq => h (heq ▸ hx))
    (fun x hx heq => h' (heq ▸ hx)) rfl rfl heq
  exact ⟨hxs, List.tail_eq_of_cons_eq hys⟩

/-- Cutting at the last separator. -/
theorem cut_last (h : a ∉ ys) (h' : a ∉ ys') (heq : xs ++ a :: ys = xs' ++ a :: ys') :
    xs = xs' ∧ ys = ys' := by
  have hrev := congrArg List.reverse heq
  simp only [List.reverse_append, List.reverse_cons, List.append_assoc, List.cons_append,
    List.nil_append] at hrev
  obtain ⟨hys, hxs⟩ := cut_first (mt List.mem_reverse.1 h) (mt List.mem_reverse.1 h') hrev
  exact ⟨List.reverse_injective hxs, List.reverse_injective hys⟩

/-- A marker that stands at the beginning and again at once stands there in full. -/
theorem marker_of_append (h : a ∉ marker) {zs : List α} (hzs : zs ≠ [])
    (heq : a :: marker ++ ys = zs ++ a :: marker ++ ys') :
    ∃ rest, zs = a :: marker ++ rest ∧ ys = rest ++ a :: marker ++ ys' := by
  rw [List.append_assoc zs] at heq
  rcases List.append_eq_append_iff.1 heq with ⟨rest, rfl, hys⟩ | ⟨rest, hzs', hrest⟩
  · exact ⟨rest, rfl, by rw [hys, List.append_assoc]⟩
  · -- the first character would stand within the marker
    cases zs with
    | nil => exact absurd rfl hzs
    | cons z zs =>
      obtain ⟨rfl, rfl⟩ := List.cons.inj hzs'
      cases rest with
      | nil => exact ⟨[], by simp, by simpa using hrest.symm⟩
      | cons r rest =>
        obtain ⟨rfl, -⟩ := List.cons.inj hrest
        simp at h

/-- **Where a marker can be found** in two places of a whole: it is found in one place,
or in one behind the other. -/
theorem marker_cases (h : a ∉ marker)
    (heq : xs ++ (a :: marker ++ ys) = xs' ++ (a :: marker ++ ys')) :
    (xs = xs' ∧ ys = ys') ∨
      (∃ rest, xs' = xs ++ a :: marker ++ rest ∧ ys = rest ++ a :: marker ++ ys') ∨
      ∃ rest, xs = xs' ++ a :: marker ++ rest ∧ ys' = rest ++ a :: marker ++ ys := by
  rcases List.append_eq_append_iff.1 heq with ⟨zs, rfl, hzs⟩ | ⟨zs, rfl, hzs⟩
  · by_cases hnil : zs = []
    · subst hnil
      exact .inl ⟨by simp, by simpa using hzs⟩
    · obtain ⟨rest, rfl, hys⟩ := marker_of_append h hnil (by rw [hzs, List.append_assoc])
      exact .inr (.inl ⟨rest, by rw [List.append_assoc], hys⟩)
  · by_cases hnil : zs = []
    · subst hnil
      exact .inl ⟨by simp, by simpa using hzs.symm⟩
    · obtain ⟨rest, rfl, hys⟩ := marker_of_append h hnil (by rw [hzs, List.append_assoc])
      exact .inr (.inr ⟨rest, by rw [List.append_assoc], hys⟩)

/-- **A marker beside a separator** that does not occur in it lies in front of the
separator or behind it. -/
theorem marker_beside {s : α} {zs : List α} (h : s ∉ marker) (hne : marker ≠ [])
    (heq : xs ++ s :: ys = zs ++ (marker ++ ys')) :
    (∃ rest, xs = zs ++ (marker ++ rest) ∧ ys' = rest ++ s :: ys) ∨
      ∃ rest, zs = xs ++ s :: rest ∧ ys = rest ++ (marker ++ ys') := by
  rcases List.append_eq_append_iff.1 heq with ⟨rest, rfl, hrest⟩ | ⟨rest, rfl, hrest⟩
  · cases rest with
    | nil =>
      -- the separator would be the first character of the marker
      obtain ⟨m, ms, rfl⟩ := List.exists_cons_of_ne_nil hne
      obtain ⟨rfl, -⟩ := List.cons.inj hrest
      simp at h
    | cons r rest =>
      obtain ⟨rfl, hys⟩ := List.cons.inj hrest
      exact .inr ⟨rest, rfl, hys⟩
  · rcases List.append_eq_append_iff.1 hrest with ⟨zs, rfl, hzs⟩ | ⟨zs, rfl, hzs⟩
    · exact .inl ⟨zs, rfl, hzs⟩
    · cases zs with
      | nil => exact .inl ⟨[], by simp, by simpa using hzs.symm⟩
      | cons z zs =>
        obtain ⟨rfl, -⟩ := List.cons.inj hzs
        simp at h

/-- **A marker among texts joined by separators** that do not occur in it lies in one of
the texts. -/
theorem marker_in_join {s : α} (h : s ∉ marker) (hne : marker ≠ []) {parts : List (List α)}
    {xs ys : List α} (heq : [s].intercalate parts = xs ++ (marker ++ ys)) :
    ∃ p ∈ parts, marker ⊆ p := by
  induction parts generalizing xs with
  | nil =>
    rw [List.intercalate_nil] at heq
    simp [hne] at heq
  | cons p parts ih =>
    cases parts with
    | nil =>
      rw [List.intercalate_singleton] at heq
      exact ⟨p, by simp, fun c hc => by simp [heq, hc]⟩
    | cons q parts =>
      rw [List.intercalate_cons_cons, List.append_assoc] at heq
      rcases marker_beside h hne heq with ⟨rest, rfl, -⟩ | ⟨rest, -, hrest⟩
      · exact ⟨_, List.mem_cons_self, fun c hc => by simp [hc]⟩
      · obtain ⟨p', hp', hsub⟩ := ih hrest
        exact ⟨p', List.mem_cons_of_mem _ hp', hsub⟩

/-- A character of texts joined by separators is a separator or in one of the texts. -/
theorem mem_join {s c : α} {parts : List (List α)} (h : c ∈ [s].intercalate parts) :
    c = s ∨ ∃ p ∈ parts, c ∈ p := by
  induction parts with
  | nil => simp [List.intercalate_nil] at h
  | cons p parts ih =>
    cases parts with
    | nil =>
      rw [List.intercalate_singleton] at h
      exact .inr ⟨p, by simp, h⟩
    | cons q parts =>
      rw [List.intercalate_cons_cons, List.append_assoc] at h
      rcases List.mem_append.1 h with h | h
      · exact .inr ⟨p, by simp, h⟩
      · rcases List.mem_cons.1 h with rfl | h
        · exact .inl rfl
        · rcases ih h with hc | ⟨p', hp', hc⟩
          · exact .inl hc
          · exact .inr ⟨p', List.mem_cons_of_mem _ hp', hc⟩

/-- Joined texts, one of which is not empty, are not empty. -/
theorem join_ne_nil {s : α} {parts : List (List α)} (hne : parts ≠ []) (h : ∀ p ∈ parts, p ≠ []) :
    [s].intercalate parts ≠ [] := by
  obtain ⟨p, parts, rfl⟩ := List.exists_cons_of_ne_nil hne
  have hp : p ≠ [] := h p (by simp)
  cases parts with
  | nil => simpa [List.intercalate_singleton] using hp
  | cons q parts => simp [List.intercalate_cons_cons]

/-- **Texts joined by a separator** that occurs in none of them can be told apart, unless
one of them is empty. -/
theorem join_injective [DecidableEq α] {s : α} {parts parts' : List (List α)}
    (h : ∀ p ∈ parts, s ∉ p) (h' : ∀ p ∈ parts', s ∉ p)
    (hne : ∀ p ∈ parts, p ≠ []) (hne' : ∀ p ∈ parts', p ≠ [])
    (heq : [s].intercalate parts = [s].intercalate parts') : parts = parts' := by
  by_cases hnil : parts = []
  · subst hnil
    by_contra hnil'
    exact join_ne_nil (Ne.symm hnil') hne' heq.symm
  · have hnil' : parts' ≠ [] := by
      rintro rfl
      exact join_ne_nil hnil hne heq
    rw [← List.splitOn_intercalate s h hnil, heq, List.splitOn_intercalate s h' hnil']

/-- Splitting at a separator gives one piece more than it occurs. -/
theorem length_splitOn [DecidableEq α] (s : α) (xs : List α) :
    (xs.splitOn s).length = xs.count s + 1 := by
  induction xs with
  | nil => rfl
  | cons x xs ih =>
    rw [List.splitOn_cons_eq_if_modifyHead, List.count_cons]
    split
    · rw [List.length_cons, ih]
    · rw [List.length_modifyHead, ih]

end Text

end Conductor
