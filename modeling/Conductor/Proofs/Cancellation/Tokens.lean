import Conductor.Cancellation.Tokens
import Mathlib.Data.List.GetD
/-!
# Cancellation — what reaches a token

To cancel a token reaches exactly the tokens that it lies above
(`Ordered.isCanceled_cancel`): one pass over the tokens marks a token when its
parent has been marked, and a parent stands in front of its children
(`Tokens.Ordered`). A new child begins as its parent is
(`isCanceled_child`), and what lies above the others stays as it is
(`Ordered.above_child`).
-/

namespace Conductor

namespace Tokens

variable {t u : Tokens} {i j p target : Nat}

/-- Parents stand in front of their children. -/
def Ordered (t : Tokens) : Prop := ∀ i p, t.IsChild i p → p < i

/-! ## Above -/

/-- What lies above a token is the token, or lies above its parent. -/
theorem above_iff : t.Above i j ↔ i = j ∨ ∃ p, t.IsChild j p ∧ t.Above i p := by
  constructor
  · rintro (_ | ⟨hchild, habove⟩)
    · exact .inl rfl
    · exact .inr ⟨_, hchild, habove⟩
  · rintro (rfl | ⟨p, hchild, habove⟩)
    · exact .self i
    · exact .parent hchild habove

theorem Ordered.le_of_above (h : t.Ordered) (ha : t.Above i j) : i ≤ j := by
  induction ha with
  | self => exact Nat.le_refl _
  | parent hchild _ ih => exact Nat.le_trans ih (Nat.le_of_lt (h _ _ hchild))

/-- A child lies above neither its parent nor another child of it. -/
theorem Ordered.not_above_parent (h : t.Ordered) (hchild : t.IsChild i p) : ¬ t.Above i p :=
  fun ha => Nat.not_lt.2 (h.le_of_above ha) (h i p hchild)

theorem isChild_unique {q : Nat} (hp : t.IsChild i p) (hq : t.IsChild i q) : p = q := by
  obtain ⟨token, htoken, hp⟩ := hp
  obtain ⟨token', htoken', hq⟩ := hq
  obtain rfl : token = token' := Option.some.inj (htoken.symm.trans htoken')
  exact Option.some.inj (hp.symm.trans hq)

theorem Ordered.not_above_sibling (h : t.Ordered) (hi : t.IsChild i p) (hj : t.IsChild j p)
    (hne : j ≠ i) : ¬ t.Above i j := by
  intro ha
  rcases above_iff.1 ha with heq | ⟨q, hq, hiq⟩
  · exact hne heq.symm
  · exact h.not_above_parent hi (isChild_unique hq hj ▸ hiq)

theorem isChild_iff : t.IsChild i p ↔ (t.toList.map Token.parent)[i]? = some (some p) := by
  simp [IsChild, List.getElem?_map, Option.map_eq_some_iff]

/-- Only the parents matter to what lies above what. -/
theorem above_congr (h : u.toList.map Token.parent = t.toList.map Token.parent) :
    u.Above i j ↔ t.Above i j := by
  have transfer : ∀ {t u : Tokens}, u.toList.map Token.parent = t.toList.map Token.parent →
      u.Above i j → t.Above i j := by
    intro t u h ha
    induction ha with
    | self => exact .self i
    | parent hchild _ ih =>
      rw [isChild_iff, h, ← isChild_iff] at hchild
      exact .parent hchild ih
  exact ⟨transfer h, transfer h.symm⟩

/-! ## A new child -/

@[simp] theorem size_child : (t.child i).size = t.size + 1 := by simp [child, size]

/-- The new token is a child of the one given, and no other token has a new parent. -/
theorem isChild_child : (t.child i).IsChild j p ↔ t.IsChild j p ∨ j = t.size ∧ p = i := by
  simp only [isChild_iff, child, size, List.map_append, List.map_cons, List.map_nil]
  rcases Nat.lt_trichotomy j t.toList.length with hlt | rfl | hgt
  · rw [List.getElem?_append_left (by simpa using hlt)]
    simp [Nat.ne_of_lt hlt]
  · rw [List.getElem?_append_right (by simp)]
    simp [eq_comm]
  · rw [List.getElem?_eq_none (by simpa using Nat.succ_le_of_lt hgt)]
    simp [Nat.ne_of_gt hgt, Nat.le_of_lt hgt]

theorem Ordered.child (h : t.Ordered) (hi : i < t.size) : (t.child i).Ordered := by
  intro j p hchild
  rcases isChild_child.1 hchild with hchild | ⟨rfl, rfl⟩
  · exact h j p hchild
  · exact hi

/-- **A child begins as its parent is**, and changes no other token. -/
theorem isCanceled_child :
    (t.child i).isCanceled j = if j = t.size then t.isCanceled i else t.isCanceled j := by
  rcases Nat.lt_trichotomy j t.size with hlt | rfl | hgt
  · rw [if_neg (Nat.ne_of_lt hlt), isCanceled, isCanceled, child,
      List.getElem?_append_left (show j < t.toList.length from hlt)]
  · rw [if_pos rfl, isCanceled, child, size, List.getElem?_concat_length]
  · have hnone : t.toList[j]? = none := List.getElem?_eq_none (Nat.le_of_lt hgt)
    have hnone' : (t.child i).toList[j]? = none :=
      List.getElem?_eq_none (show (t.child i).size ≤ j by simpa using Nat.succ_le_of_lt hgt)
    rw [if_neg (Nat.ne_of_gt hgt), isCanceled, isCanceled, hnone, hnone']

/-- What lies above the older tokens is what lay above them. -/
theorem Ordered.above_child (h : t.Ordered) (hj : j < t.size) :
    (t.child i).Above target j ↔ t.Above target j := by
  constructor
  · intro ha
    induction ha with
    | self => exact .self target
    | @parent p j hchild _ ih =>
      rcases isChild_child.1 hchild with hchild | ⟨rfl, -⟩
      · exact .parent hchild (ih (Nat.lt_trans (h _ _ hchild) hj))
      · exact absurd hj (Nat.lt_irrefl _)
  · intro ha
    clear hj
    induction ha with
    | self => exact .self target
    | parent hchild _ ih => exact .parent (isChild_child.2 (.inl hchild)) ih

/-- Above the new token lie it and what lies above its parent. -/
theorem Ordered.above_child_new (h : t.Ordered) (hi : i < t.size) :
    (t.child i).Above target t.size ↔ target = t.size ∨ t.Above target i := by
  rw [above_iff]
  refine or_congr Iff.rfl ⟨?_, fun ha => ⟨i, isChild_child.2 (.inr ⟨rfl, rfl⟩), ?_⟩⟩
  · rintro ⟨p, hchild, ha⟩
    rcases isChild_child.1 hchild with hchild | ⟨-, rfl⟩
    · obtain ⟨token, htoken, -⟩ := hchild
      exact absurd (List.getElem?_eq_some_iff.1 htoken).1 (Nat.lt_irrefl _)
    · exact (h.above_child hi).1 ha
  · exact (h.above_child hi).2 ha

/-! ## Cancellation -/

theorem map_parent_cancelFrom (target index : Nat) (marks : List Bool) (tokens : List Token) :
    (cancelFrom target index marks tokens).map Token.parent = tokens.map Token.parent := by
  induction tokens generalizing index marks with
  | nil => rfl
  | cons token rest ih => rw [cancelFrom, List.map_cons, ih, List.map_cons]

@[simp] theorem size_cancel : (t.cancel i).size = t.size := by
  simpa [cancel, size] using congrArg List.length (map_parent_cancelFrom i 0 [] t.toList)

/-- To cancel changes no parent. -/
theorem isChild_cancel : (t.cancel target).IsChild i p ↔ t.IsChild i p := by
  rw [isChild_iff, isChild_iff, cancel, map_parent_cancelFrom]

theorem above_cancel : (t.cancel target).Above i j ↔ t.Above i j :=
  above_congr (map_parent_cancelFrom target 0 [] t.toList)

theorem Ordered.cancel (h : t.Ordered) : (t.cancel i).Ordered :=
  fun j p hchild => h j p (isChild_cancel.1 hchild)

/-- The marks in front say of each token whether the target lies above it. -/
def Marked (t : Tokens) (target : Nat) (marks : List Bool) : Prop :=
  ∀ p < marks.length, marks.getD p false = true ↔ t.Above target p

/-- So a token is reached exactly when the target lies above it. -/
theorem Ordered.reached_iff (h : t.Ordered) {marks : List Bool} (hmarks : t.Marked target marks)
    {token : Token} (htoken : t.toList[marks.length]? = some token) :
    reached target marks.length marks token = true ↔ t.Above target marks.length := by
  rw [above_iff, reached, Bool.or_eq_true, decide_eq_true_eq, eq_comm]
  refine or_congr Iff.rfl ?_
  cases hparent : token.parent with
  | none =>
    constructor
    · intro hfalse
      cases hfalse
    · rintro ⟨p, ⟨token', htoken', hp⟩, -⟩
      obtain rfl : token = token' := Option.some.inj (htoken.symm.trans htoken')
      cases hparent.symm.trans hp
  | some p =>
    have hchild : t.IsChild marks.length p := ⟨token, htoken, hparent⟩
    have hmark := hmarks p (h _ _ hchild)
    refine ⟨fun hp => ⟨p, hchild, hmark.1 hp⟩, ?_⟩
    rintro ⟨q, hq, ha⟩
    exact hmark.2 (isChild_unique hq hchild ▸ ha)

/-- **The pass over the tokens** cancels those that the target lies above. -/
theorem Ordered.cancelFrom_eq (h : t.Ordered) {rest : List Token} {marks : List Bool}
    (hmarks : t.Marked target marks) (hrest : rest = t.toList.drop marks.length) {token : Token}
    (htoken : rest[j]? = some token) :
    ∃ mark : Bool, (mark = true ↔ t.Above target (marks.length + j)) ∧
      (cancelFrom target marks.length marks rest)[j]? =
        some { token with canceled := token.canceled || mark } := by
  induction rest generalizing marks j with
  | nil => cases htoken
  | cons first rest ih =>
    have hfirst : t.toList[marks.length]? = some first := by
      have hhead : (t.toList.drop marks.length)[0]? = some first := by rw [← hrest]; rfl
      simpa using hhead
    have hreached := h.reached_iff hmarks hfirst
    cases j with
    | zero =>
      cases htoken
      exact ⟨_, hreached, rfl⟩
    | succ j =>
      -- the mark of the first token is known when the others are looked at
      have hnext : t.Marked target (marks ++ [reached target marks.length marks first]) := by
        intro p hp
        rw [List.length_append, List.length_singleton] at hp
        rcases Nat.lt_succ_iff_lt_or_eq.1 hp with hlt | rfl
        · rw [List.getD_append _ _ _ _ hlt]
          exact hmarks p hlt
        · rw [List.getD_append_right _ _ _ _ (Nat.le_refl _)]
          simpa using hreached
      have hdrop : rest = t.toList.drop (marks.length + 1) := by
        rw [← List.tail_drop, ← hrest, List.tail_cons]
      obtain ⟨mark, hmark, hresult⟩ := ih hnext (by simpa using hdrop) htoken
      rw [List.length_append, List.length_singleton] at hmark hresult
      refine ⟨mark, ?_, hresult⟩
      rw [hmark, Nat.add_right_comm, Nat.add_assoc]

/-- **To cancel a token reaches what it lies above**, and nothing else. -/
theorem Ordered.isCanceled_cancel (h : t.Ordered) (hj : j < t.size) :
    (t.cancel target).isCanceled j = true ↔ t.isCanceled j = true ∨ t.Above target j := by
  have htoken : t.toList[j]? = some t.toList[j] := List.getElem?_eq_getElem hj
  have hmarks : t.Marked target [] := fun p hp => absurd hp (Nat.not_lt_zero p)
  obtain ⟨mark, hmark, hresult⟩ := h.cancelFrom_eq hmarks List.drop_zero.symm htoken
  have hresult : (t.cancel target).toList[j]? =
      some { t.toList[j] with canceled := t.toList[j].canceled || mark } := hresult
  rw [isCanceled, isCanceled, hresult, htoken]
  simpa using or_congr Iff.rfl hmark

end Tokens

end Conductor
