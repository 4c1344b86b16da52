import Conductor.Table
import Mathlib.Data.List.Induction
import Mathlib.Data.List.Nodup
import Mathlib.Data.String.Basic
/-!
# Tables — looking up, and counting entries

What `Table.insert` does to a table, read through the three views that later
developments use: the value of a key (`get?_insert`), the keys in their order
(`mem_keys_insert`, `Sorted.insert`), and the number of entries of a kind. For
the last a table is compared as a multiset: an insertion either adds one entry
(`insert_perm_of_not_mem`) or exchanges one (`insert_perm_of_get?`).

Order matters to the entries only. A lookup finds the entry of its key in any
list, so `get?_insert` asks for nothing; that an entry is what a lookup finds
(`mem_iff_get?`) needs the keys to be distinct, which `Sorted` gives. Sorted
tables with the same lookups are equal (`Sorted.ext`), so the table of a list
of entries is given by the last entry of each key (`ofList_congr`).
-/

namespace Conductor

namespace Table

variable {α : Type} {t : Table α} {k k' : String} {v w : α}

/-! ## Lookups -/

@[simp] theorem get?_nil : get? k ([] : Table α) = none := rfl

/-- **A lookup after an insertion** finds the new value at its key, and what was
there before at every other. -/
theorem get?_insert : get? k' (t.insert k v) = if k' = k then some v else t.get? k' := by
  induction t with
  | nil => simp [insert, get?]
  | cons e rest ih =>
    obtain ⟨k₀, v₀⟩ := e
    simp only [insert]
    split
    · simp [get?]
    · split
      · rename_i hk
        subst hk
        by_cases h : k' = k <;> simp [get?, h]
      · rename_i hk
        simp only [get?, ih]
        by_cases h : k' = k₀
        · subst h
          simp [Ne.symm hk]
        · simp [h]

@[simp] theorem get?_insert_self : get? k (t.insert k v) = some v := by
  rw [get?_insert, if_pos rfl]

theorem get?_insert_of_ne (h : k' ≠ k) : get? k' (t.insert k v) = t.get? k' := by
  rw [get?_insert, if_neg h]

/-- A key that a table has it keeps. -/
theorem get?_insert_ne_none (h : t.get? k' ≠ none) : get? k' (t.insert k v) ≠ none := by
  rw [get?_insert]
  split
  · simp
  · exact h

/-- A lookup that finds something finds an entry. -/
theorem mem_of_get? (h : t.get? k = some v) : (k, v) ∈ t := by
  induction t with
  | nil => simp at h
  | cons e rest ih =>
    obtain ⟨k₀, v₀⟩ := e
    simp only [get?] at h
    split at h
    · rename_i hk
      obtain rfl := Option.some.inj h
      simp [hk]
    · exact List.mem_cons_of_mem _ (ih h)

/-! ## Keys and order -/

/-- The keys of an insertion are the old ones and the new one. -/
theorem mem_keys_insert : k' ∈ (t.insert k v).keys ↔ k' = k ∨ k' ∈ t.keys := by
  induction t with
  | nil => simp [insert, keys]
  | cons e rest ih =>
    obtain ⟨k₀, v₀⟩ := e
    simp only [keys] at ih
    simp only [insert]
    split
    · simp [keys]
    · split
      · rename_i hk
        subst hk
        simp [keys]
      · simp only [keys, List.map_cons, List.mem_cons, ih]
        tauto

theorem Sorted.nil : Sorted ([] : Table α) := List.Pairwise.nil

theorem Sorted.tail {e : String × α} (h : Sorted (e :: t)) : t.Sorted := (List.pairwise_cons.1 h).2

theorem Sorted.head_lt {e x : String × α} (h : Sorted (e :: t)) (hx : x ∈ t) : e.1 < x.1 :=
  (List.pairwise_cons.1 h).1 x hx

/-- **A table stays sorted**, whatever is inserted. -/
theorem Sorted.insert (h : t.Sorted) : (t.insert k v).Sorted := by
  induction t with
  | nil => exact List.pairwise_singleton _ _
  | cons e rest ih =>
    obtain ⟨k₀, v₀⟩ := e
    simp only [Table.insert]
    split
    · rename_i hlt
      refine List.pairwise_cons.2 ⟨fun x hx => ?_, h⟩
      rcases List.mem_cons.1 hx with rfl | hx
      · exact hlt
      · exact lt_trans hlt (h.head_lt hx)
    · rename_i hlt
      split
      · rename_i hk
        subst hk
        exact List.pairwise_cons.2 ⟨fun x hx => h.head_lt hx, h.tail⟩
      · rename_i hk
        refine List.pairwise_cons.2 ⟨fun x hx => ?_, ih h.tail⟩
        -- an entry of the rest has the new key or an old one, and both are behind this one
        have hx' : x.1 ∈ (Table.insert k v rest).keys := List.mem_map_of_mem hx
        rcases mem_keys_insert.1 hx' with hxk | hxr
        · rw [hxk]
          exact lt_of_le_of_ne (not_lt.1 hlt) (Ne.symm hk)
        · obtain ⟨y, hy, hyx⟩ := List.mem_map.1 hxr
          rw [← hyx]
          exact h.head_lt hy

/-- What has the greatest key goes to the end. -/
theorem insert_of_forall_lt (h : ∀ e ∈ t, e.1 < k) : t.insert k v = t ++ [(k, v)] := by
  induction t with
  | nil => rfl
  | cons e rest ih =>
    obtain ⟨k₀, v₀⟩ := e
    have hlt : k₀ < k := h _ (List.mem_cons_self ..)
    rw [insert, if_neg (lt_asymm hlt), if_neg (ne_of_gt hlt),
      ih fun x hx => h x (List.mem_cons_of_mem _ hx)]
    rfl

/-- No two entries of a table have one key. -/
theorem Sorted.nodup_keys (h : t.Sorted) : t.keys.Nodup :=
  List.pairwise_map.2 (List.Pairwise.imp (fun hlt => ne_of_lt hlt) h)

/-- **An entry of a table is what a lookup of its key finds.** -/
theorem Sorted.mem_iff_get? (h : t.Sorted) : (k, v) ∈ t ↔ t.get? k = some v := by
  refine ⟨fun hm => ?_, mem_of_get?⟩
  induction t with
  | nil => simp at hm
  | cons e rest ih =>
    obtain ⟨k₀, v₀⟩ := e
    rcases List.mem_cons.1 hm with heq | hm
    · obtain ⟨rfl, rfl⟩ := Prod.mk.inj heq
      simp [get?]
    · -- an entry further on has another key than the first, which the lookup passes by
      have hlt : k₀ < k := h.head_lt hm
      simp only [get?, if_neg (ne_of_gt hlt)]
      exact ih h.tail hm

/-- **Sorted tables in which every lookup finds the same are equal.** -/
theorem Sorted.ext {t' : Table α} (h : t.Sorted) (h' : t'.Sorted)
    (hget : ∀ k, t.get? k = t'.get? k) : t = t' := by
  have hmem : ∀ e : String × α, e ∈ t ↔ e ∈ t' := by
    rintro ⟨k, v⟩
    rw [h.mem_iff_get?, h'.mem_iff_get?, hget]
  have hperm : t.Perm t' :=
    (List.perm_ext_iff_of_nodup (List.Nodup.of_map _ h.nodup_keys)
      (List.Nodup.of_map _ h'.nodup_keys)).2 hmem
  exact hperm.eq_of_pairwise (fun _ _ _ _ hlt hlt' => absurd hlt (lt_asymm hlt')) h h'

/-! ## Tables that are filtered and mapped -/

theorem get?_map {β : Type} (f : α → β) :
    get? k (t.map fun e => (e.1, f e.2)) = (t.get? k).map f := by
  induction t with
  | nil => rfl
  | cons e rest ih =>
    obtain ⟨k₀, v₀⟩ := e
    simp only [List.map_cons, get?]
    split
    · rfl
    · exact ih

theorem Sorted.map {β : Type} (h : t.Sorted) (f : α → β) :
    Sorted (t.map fun e => (e.1, f e.2)) :=
  List.pairwise_map.2 h

theorem Sorted.filter (h : t.Sorted) (p : String × α → Bool) : Sorted (t.filter p) :=
  List.Pairwise.filter p h

theorem Sorted.get?_filter (h : t.Sorted) (p : String × α → Bool) :
    get? k (t.filter p) = (t.get? k).filter fun v => p (k, v) := by
  refine Option.ext fun v => ?_
  rw [← (h.filter p).mem_iff_get?, List.mem_filter, h.mem_iff_get?, Option.filter_eq_some_iff]

theorem Sorted.get?_erase (h : t.Sorted) :
    get? k' (t.erase k) = if k' = k then none else t.get? k' := by
  rw [erase, h.get?_filter]
  by_cases hk : k' = k
  · simp [hk]
  · cases t.get? k' <;> simp [hk, Option.filter]

/-! ## Tables of entries -/

theorem ofList_append_singleton {es : List (String × α)} {e : String × α} :
    ofList (es ++ [e]) = (ofList es).insert e.1 e.2 := by
  simp [ofList]

theorem sorted_ofList (es : List (String × α)) : (ofList es).Sorted := by
  induction es using List.reverseRecOn with
  | nil => exact .nil
  | append_singleton es e ih =>
    rw [ofList_append_singleton]
    exact ih.insert

/-- The keys of a list are those of its table. -/
theorem mem_keys_ofList {es : List (String × α)} :
    k ∈ (ofList es).keys ↔ k ∈ es.map Prod.fst := by
  induction es using List.reverseRecOn with
  | nil => exact .rfl
  | append_singleton es e ih =>
    rw [ofList_append_singleton, mem_keys_insert, ih, List.map_append, List.mem_append, or_comm,
      List.map_singleton, List.mem_singleton]

/-- **A lookup in the table of a list** finds the last entry of its key. -/
theorem get?_ofList (es : List (String × α)) :
    (ofList es).get? k = ((es.filter (·.1 = k)).getLast?).map Prod.snd := by
  induction es using List.reverseRecOn with
  | nil => rfl
  | append_singleton es e ih =>
    rw [ofList_append_singleton, get?_insert, ih, List.filter_append]
    by_cases hk : e.1 = k
    · simp [hk]
    · simp [hk, Ne.symm hk]

/-- Lists with the same entries of each key, in the same order, have one table. -/
theorem ofList_congr {es es' : List (String × α)}
    (h : ∀ k, es.filter (·.1 = k) = es'.filter (·.1 = k)) : ofList es = ofList es' :=
  (sorted_ofList es).ext (sorted_ofList es') fun k => by rw [get?_ofList, get?_ofList, h k]

/-! ## Tables on top of each other -/

/-- **A lookup in an overlay** finds the value of the upper table, or that below. -/
theorem Sorted.get?_overlay {base upper : Table α} (h : upper.Sorted) :
    (overlay base upper).get? k = (upper.get? k).or (base.get? k) := by
  induction upper generalizing base with
  | nil => rfl
  | cons e rest ih =>
    obtain ⟨k₀, v₀⟩ := e
    have hrest : (overlay base ((k₀, v₀) :: rest)).get? k =
        (get? k rest).or (get? k (base.insert k₀ v₀)) := ih h.tail
    rw [hrest, get?_insert]
    by_cases hk : k = k₀
    · -- the key is the first, so it is none of the others
      subst hk
      have hnone : get? k rest = none := by
        refine Option.eq_none_iff_forall_ne_some.2 fun w hw => ?_
        exact lt_irrefl k (h.head_lt (mem_of_get? hw))
      simp [get?, hnone]
    · simp [get?, hk]

theorem Sorted.overlay {base upper : Table α} (h : base.Sorted) :
    (Table.overlay base upper).Sorted := by
  induction upper generalizing base with
  | nil => exact h
  | cons e rest ih => exact ih h.insert

/-- A key of the lower table is one of the overlay. -/
theorem get?_overlay_ne_none {base upper : Table α} (h : base.get? k ≠ none) :
    (overlay base upper).get? k ≠ none := by
  induction upper generalizing base with
  | nil => exact h
  | cons e rest ih => exact ih (get?_insert_ne_none h)

/-- **What lies on a table already** is not changed when it is put there again. -/
theorem overlay_overlay {base upper : Table α} (h : base.Sorted) :
    overlay base (overlay base upper) = overlay base upper := by
  have hupper : (overlay base upper).Sorted := h.overlay
  refine h.overlay.ext hupper fun k => ?_
  rw [hupper.get?_overlay]
  cases hk : (overlay base upper).get? k with
  | some v => rfl
  | none =>
    have hbase : base.get? k = none := by
      by_contra hne
      exact get?_overlay_ne_none hne hk
    rw [hbase]
    rfl

/-! ## Entries, as a multiset -/

/-- An insertion under a new key adds its entry. -/
theorem insert_perm_of_not_mem (h : k ∉ t.keys) : (t.insert k v).Perm ((k, v) :: t) := by
  induction t with
  | nil => exact .rfl
  | cons e rest ih =>
    obtain ⟨k₀, v₀⟩ := e
    simp only [keys, List.map_cons, List.mem_cons, not_or] at h
    simp only [insert]
    split
    · exact .rfl
    · rw [if_neg h.1]
      exact ((ih h.2).cons _).trans (.swap _ _ _)

/-- The table of entries with distinct keys has these entries. -/
theorem ofList_perm {es : List (String × α)} (h : (es.map Prod.fst).Nodup) :
    (ofList es).Perm es := by
  induction es using List.reverseRecOn with
  | nil => exact .refl _
  | append_singleton es e ih =>
    rw [List.map_append, List.map_singleton, List.nodup_append] at h
    obtain ⟨hes, -, hne⟩ := h
    have hperm := ih hes
    have hnew : e.1 ∉ (ofList es).keys := fun hmem =>
      hne e.1 ((hperm.map Prod.fst).mem_iff.1 hmem) e.1 (List.mem_singleton_self _) rfl
    rw [ofList_append_singleton]
    exact (insert_perm_of_not_mem hnew).trans
      ((hperm.cons e).trans (List.perm_append_singleton e es).symm)

/-- An insertion under a key that is there exchanges its entry. -/
theorem insert_perm_of_get? (h : t.Sorted) (hw : t.get? k = some w) :
    ((k, w) :: t.insert k v).Perm ((k, v) :: t) := by
  induction t with
  | nil => simp at hw
  | cons e rest ih =>
    obtain ⟨k₀, v₀⟩ := e
    simp only [get?] at hw
    simp only [insert]
    by_cases hk : k = k₀
    · subst hk
      obtain rfl := Option.some.inj (by simpa using hw)
      simpa using List.Perm.swap _ _ _
    · rw [if_neg hk] at hw
      have hlt : k₀ < k := h.head_lt (mem_of_get? hw)
      rw [if_neg (not_lt.2 hlt.le), if_neg hk]
      exact ((List.Perm.swap _ _ _).trans ((ih h.tail hw).cons _)).trans (.swap _ _ _)

end Table

end Conductor
