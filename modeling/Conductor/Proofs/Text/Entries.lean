import Conductor.Proofs.Text.Separator
import Mathlib.Data.List.Induction
import Mathlib.Data.String.Basic
/-!
# Text — entries

An entry has two parts with a mark behind each. Nothing is escaped, so whether the entries
can be read off their text depends on where the marks may stand. They can be read from the
left if no first part has the first mark and no second part the second (`entries_of_left`);
and from the right, behind the last marks, if it is the other way round (`entries_of_right`).
Last, the characters of first parts may be others than those of the marks and of second
parts. Then they show where a first part begins, unless it is empty (`entries_of_apart`).
-/

namespace Conductor

namespace Text

variable {α : Type} {a b : α} {e : List α × List α} {es es' : List (List α × List α)}

/-- An entry of two texts. -/
def entryOf (s t : String) : List Char × List Char := (s.toList, t.toList)

theorem entryOf_inj {s s' t t' : String} : entryOf s t = entryOf s' t' ↔ s = s' ∧ t = t' := by
  rw [entryOf, entryOf, Prod.mk.injEq, String.toList_inj, String.toList_inj]

/-- The text of entries. -/
def entries (a b : α) (es : List (List α × List α)) : List α :=
  es.flatMap fun e => e.1 ++ a :: (e.2 ++ [b])

@[simp] theorem entries_nil : entries a b [] = [] := rfl

@[simp] theorem entries_cons :
    entries a b (e :: es) = e.1 ++ a :: (e.2 ++ b :: entries a b es) := by
  simp [entries]

theorem entries_concat :
    entries a b (es ++ [e]) = (entries a b es ++ e.1) ++ a :: e.2 ++ [b] := by
  simp [entries]

/-- Entries read from the left. -/
theorem entries_of_left (h : ∀ e ∈ es, a ∉ e.1 ∧ b ∉ e.2) (h' : ∀ e ∈ es', a ∉ e.1 ∧ b ∉ e.2)
    (heq : entries a b es = entries a b es') : es = es' := by
  induction es generalizing es' with
  | nil =>
    cases es' with
    | nil => rfl
    | cons e' es' => simp at heq
  | cons e es ih =>
    cases es' with
    | nil => simp at heq
    | cons e' es' =>
      rw [List.forall_mem_cons] at h h'
      rw [entries_cons, entries_cons] at heq
      -- the first part ends at the first mark, and the second part at the first one behind it
      obtain ⟨hfirst, heq⟩ := cut_first h.1.1 h'.1.1 heq
      obtain ⟨hsecond, heq⟩ := cut_first h.1.2 h'.1.2 heq
      rw [Prod.ext hfirst hsecond, ih h.2 h'.2 heq]

/-- The mark at the end of entries is the last one, if there is none in what follows. -/
theorem entries_append {xs xs' : List α} (h : b ∉ xs) (h' : b ∉ xs')
    (heq : entries a b es ++ xs = entries a b es' ++ xs') :
    entries a b es = entries a b es' ∧ xs = xs' := by
  have hmark : ∀ es : List (List α × List α), entries a b es = [] ∨
      ∃ ys, entries a b es = ys ++ [b] := fun es => by
    induction es using List.reverseRecOn with
    | nil => exact .inl rfl
    | append_singleton es e _ => exact .inr ⟨_, entries_concat⟩
  rcases hmark es with hnil | ⟨ys, hys⟩ <;> rcases hmark es' with hnil' | ⟨ys', hys'⟩
  · rw [hnil, hnil'] at heq ⊢
    exact ⟨rfl, by simpa using heq⟩
  · rw [hnil, hys', List.nil_append] at heq
    exact absurd (by simp [heq]) h
  · rw [hys, hnil', List.nil_append] at heq
    exact absurd (by simp [← heq]) h'
  · rw [hys, hys', List.append_assoc, List.append_assoc] at heq
    obtain ⟨rfl, hxs⟩ := cut_last h h' heq
    exact ⟨by rw [hys, hys'], hxs⟩

/-- Entries read from the right. -/
theorem entries_of_right (h : ∀ e ∈ es, b ∉ e.1 ∧ a ∉ e.2) (h' : ∀ e ∈ es', b ∉ e.1 ∧ a ∉ e.2)
    (heq : entries a b es = entries a b es') : es = es' := by
  induction es using List.reverseRecOn generalizing es' with
  | nil =>
    cases es' with
    | nil => rfl
    | cons e' es' => simp at heq
  | append_singleton es e ih =>
    cases es' using List.reverseRecOn with
    | nil => simp [entries_concat] at heq
    | append_singleton es' e' =>
      rw [List.forall_mem_append, List.forall_mem_singleton] at h h'
      rw [entries_concat, entries_concat] at heq
      -- the second part begins behind the last mark, and the first part behind the last of
      -- the entries in front
      obtain ⟨hentry, hsecond⟩ := cut_last h.2.2 h'.2.2 (List.append_cancel_right heq)
      obtain ⟨heq, hfirst⟩ := entries_append h.2.1 h'.2.1 hentry
      rw [Prod.ext hfirst hsecond, ih h.1 h'.1 heq]

/-- Entries with a first part begin with a character of first parts. -/
theorem entries_begin {p : α → Prop} (a b : α) (es : List (List α × List α))
    (h : ∀ c ∈ e.1, p c) (hne : e.1 ≠ []) :
    ∃ c ys, entries a b (e :: es) = c :: ys ∧ p c := by
  obtain ⟨c, cs, hcs⟩ := List.exists_cons_of_ne_nil hne
  refine ⟨c, cs ++ a :: (e.2 ++ b :: entries a b es), ?_, h c (by simp [hcs])⟩
  rw [entries_cons, hcs, List.cons_append]

/-- Entries of which all but the first have a first part, made of characters that are in
nothing else. -/
theorem entries_of_apart {p : α → Prop} (ha : ¬ p a) (hb : ¬ p b)
    (h : ∀ e ∈ es, (∀ c ∈ e.1, p c) ∧ ∀ c ∈ e.2, ¬ p c)
    (h' : ∀ e ∈ es', (∀ c ∈ e.1, p c) ∧ ∀ c ∈ e.2, ¬ p c)
    (hne : ∀ e ∈ es.tail, e.1 ≠ []) (hne' : ∀ e ∈ es'.tail, e.1 ≠ [])
    (heq : entries a b es = entries a b es') : es = es' := by
  induction es generalizing es' with
  | nil =>
    cases es' with
    | nil => rfl
    | cons e' es' => simp at heq
  | cons e es ih =>
    cases es' with
    | nil => simp at heq
    | cons e' es' =>
      rw [List.forall_mem_cons] at h h'
      rw [entries_cons, entries_cons] at heq
      obtain ⟨hfirst, heq⟩ := cut_first (fun hmem => ha (h.1.1 a hmem))
        (fun hmem => ha (h'.1.1 a hmem)) heq
      have hplain : ∀ c ∈ e.2 ++ [b], ¬ p c :=
        List.forall_mem_append.2 ⟨h.1.2, List.forall_mem_singleton.2 hb⟩
      have hplain' : ∀ c ∈ e'.2 ++ [b], ¬ p c :=
        List.forall_mem_append.2 ⟨h'.1.2, List.forall_mem_singleton.2 hb⟩
      rw [List.append_cons, List.append_cons e'.2] at heq
      -- the second part and its mark go on to the first part of the next entry
      obtain ⟨hsecond, hrest⟩ : e.2 ++ [b] = e'.2 ++ [b] ∧ entries a b es = entries a b es' := by
        cases es with
        | nil =>
          cases es' with
          | nil => simpa using heq
          | cons f' es' =>
            obtain ⟨c, ys, hbegin, hc⟩ :=
              entries_begin a b es' (h'.2 f' (by simp)).1 (hne' f' (by simp))
            rw [hbegin, entries_nil, List.append_nil] at heq
            exact absurd hc (hplain c (by simp [heq]))
        | cons f es =>
          obtain ⟨c, ys, hbegin, hc⟩ :=
            entries_begin a b es (h.2 f (by simp)).1 (hne f (by simp))
          cases es' with
          | nil =>
            rw [hbegin, entries_nil, List.append_nil] at heq
            exact absurd hc (hplain' c (by simp [← heq]))
          | cons f' es' =>
            obtain ⟨c', ys', hbegin', hc'⟩ :=
              entries_begin a b es' (h'.2 f' (by simp)).1 (hne' f' (by simp))
            rw [hbegin, hbegin'] at heq ⊢
            exact cut_before hplain hplain' hc hc' heq
      have htail := ih h.2 h'.2 (fun e he => hne e (List.mem_of_mem_tail he))
        (fun e he => hne' e (List.mem_of_mem_tail he)) hrest
      rw [Prod.ext hfirst (List.append_cancel_right hsecond), htail]

end Text

end Conductor
