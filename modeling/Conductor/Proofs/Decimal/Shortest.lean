import Conductor.Decimal.Shortest
import Mathlib.Algebra.Order.Field.Rat
import Mathlib.Tactic.FieldSimp
import Mathlib.Tactic.Linarith
import Mathlib.Tactic.Positivity
import Mathlib.Tactic.Ring
/-!
# Decimal — the shortest decimal stands for one number

The shortest decimal of a magnitude lies in the cell of the magnitude, whichever
grid it is found on (`shortest_mem`), and no decimal lies in the cells of two
magnitudes (`Cell.eq_of_mem`): neighbours share a midpoint, which belongs to the
one of them whose pattern is even. So a decimal has at most one magnitude that it
is the shortest of.
-/

namespace Conductor

namespace Binary64

/-- A pattern above another has more units. -/
theorem unitsOfBits_lt_succ (b : Nat) : unitsOfBits b < unitsOfBits (b + 1) := by
  unfold unitsOfBits exponentBit
  by_cases hlow : b + 1 < 4503599627370496
  · rw [if_pos (by omega), if_pos hlow]
    omega
  · by_cases hb : b < 4503599627370496
    · -- the first pattern with an implied bit
      rw [if_pos hb, if_neg hlow, show (b + 1) / 4503599627370496 - 1 = 0 by omega]
      change b < _ * 2 ^ 0
      omega
    · rw [if_neg hb, if_neg hlow]
      by_cases hcarry : b % 4503599627370496 + 1 < 4503599627370496
      · rw [show (b + 1) / 4503599627370496 = b / 4503599627370496 by omega]
        exact Nat.mul_lt_mul_of_pos_right (by omega) (Nat.two_pow_pos _)
      · -- the fraction is full, and the exponent goes up
        rw [show (b + 1) / 4503599627370496 - 1 = b / 4503599627370496 - 1 + 1 by omega]
        change _ * 2 ^ _ < _ * 2 ^ (_ + 1)
        rw [pow_succ, mul_comm (2 ^ _) 2, ← mul_assoc]
        exact Nat.mul_lt_mul_of_pos_right (by omega) (Nat.two_pow_pos _)

theorem unitsOfBits_strictMono : StrictMono unitsOfBits :=
  strictMono_nat_of_lt_succ unitsOfBits_lt_succ

end Binary64

namespace Decimal

/-- The number that a decimal is. -/
def Scientific.value (x : Scientific) : ℚ := x.digits * 10 ^ x.exponent

/-- The same on the scale of the cells, doubled. -/
def Scientific.twice (x : Scientific) : ℚ := 2 * 10 ^ (1074 : ℤ) * x.value

namespace Cell

variable {c : Cell} {v : ℚ} {b b' : Nat} {tie : Tie} {x : Scientific}

/-- A doubled value lies in the cell. -/
def Mem (c : Cell) (v : ℚ) : Prop :=
  if c.closed then c.twiceLow ≤ v ∧ v ≤ c.twiceHigh else c.twiceLow < v ∧ v < c.twiceHigh

theorem mem_of_contains {n : Nat} (h : c.contains n = true) : c.Mem n := by
  unfold contains at h
  unfold Mem
  split
  · rename_i hc
    rw [if_pos hc] at h
    simpa using h
  · rename_i hc
    rw [if_neg hc] at h
    simpa using h

theorem Mem.low_le (h : c.Mem v) : c.twiceLow ≤ v := by
  unfold Mem at h
  split at h
  · exact h.1
  · exact h.1.le

theorem Mem.le_high (h : c.Mem v) : v ≤ c.twiceHigh := by
  unfold Mem at h
  split at h
  · exact h.2
  · exact h.2.le

/-- Where a cell has its end, it is closed. -/
theorem Mem.closed (h : c.Mem v) (hend : v = c.twiceLow ∨ v = c.twiceHigh) : c.closed = true := by
  unfold Mem at h
  split at h
  · assumption
  · rcases hend with rfl | rfl
    · exact absurd h.1 (lt_irrefl _)
    · exact absurd h.2 (lt_irrefl _)

/-- The scale of the cells: what a unit is on it. -/
def scale : Nat := Nat.pow 5 1074

theorem twiceValue_ofBits (b : Nat) :
    (ofBits b).twiceValue = 2 * Binary64.unitsOfBits b * scale := by
  unfold scale
  rfl

theorem twiceLow_ofBits (b : Nat) :
    (ofBits b).twiceLow =
      (Binary64.unitsOfBits b + Binary64.unitsOfBits (b - 1)) * scale := by
  unfold scale
  rfl

theorem twiceHigh_ofBits (b : Nat) :
    (ofBits b).twiceHigh =
      (Binary64.unitsOfBits b + Binary64.unitsOfBits (b + 1)) * scale := by
  unfold scale
  rfl

/-- It is positive, as every power of five is. -/
theorem scale_pos : 0 < scale := by
  have hpow : ∀ n, 0 < Nat.pow 5 n := fun n => Nat.pow_pos (by decide)
  unfold scale
  exact hpow 1074

/-- A cell ends where the next begins, or before. -/
theorem twiceHigh_le_twiceLow (hb : b < b') : (ofBits b).twiceHigh ≤ (ofBits b').twiceLow := by
  have hmono := Binary64.unitsOfBits_strictMono
  have hnext : Binary64.unitsOfBits (b + 1) ≤ Binary64.unitsOfBits b' := hmono.monotone hb
  have hprev : Binary64.unitsOfBits b ≤ Binary64.unitsOfBits (b' - 1) := hmono.monotone (by omega)
  rw [twiceHigh_ofBits, twiceLow_ofBits]
  exact Nat.mul_le_mul_right _ (by omega)

/-- **Two cells share at most an end**, and only one of the two has it. -/
theorem not_mem_of_lt (hb : b < b') (h : (ofBits b).Mem v) : ¬ (ofBits b').Mem v := by
  intro h'
  have hhigh := h.le_high
  have hlow := h'.low_le
  have hends := twiceHigh_le_twiceLow hb
  have hcast : ((ofBits b).twiceHigh : ℚ) ≤ (ofBits b').twiceLow := by exact_mod_cast hends
  have hv : v = (ofBits b).twiceHigh := le_antisymm hhigh (hcast.trans hlow)
  have hv' : v = (ofBits b').twiceLow := le_antisymm (hhigh.trans hcast) hlow
  -- both patterns are even, so another lies between them
  have heven : b % 2 = 0 := eq_of_beq (h.closed (.inr hv))
  have heven' : b' % 2 = 0 := eq_of_beq (h'.closed (.inl hv'))
  have hmono := Binary64.unitsOfBits_strictMono
  have hprev : Binary64.unitsOfBits b ≤ Binary64.unitsOfBits (b' - 1) := hmono.monotone (by omega)
  have hgap : Binary64.unitsOfBits (b + 1) < Binary64.unitsOfBits b' := hmono (by omega)
  have hlt : (ofBits b).twiceHigh < (ofBits b').twiceLow := by
    rw [twiceHigh_ofBits, twiceLow_ofBits]
    exact Nat.mul_lt_mul_of_pos_right (by omega) scale_pos
  have heq : (ofBits b).twiceHigh = (ofBits b').twiceLow := by exact_mod_cast hv.symm.trans hv'
  omega

/-- **Cells stand in order**: what lies in a higher one is larger. -/
theorem lt_of_mem {v' : ℚ} (hb : b < b') (h : (ofBits b).Mem v) (h' : (ofBits b').Mem v') :
    v < v' := by
  have hends : ((ofBits b).twiceHigh : ℚ) ≤ (ofBits b').twiceLow := by
    exact_mod_cast twiceHigh_le_twiceLow hb
  have hle : v ≤ v' := h.le_high.trans (hends.trans h'.low_le)
  refine lt_of_le_of_ne hle fun heq => ?_
  rw [← heq] at h'
  exact not_mem_of_lt hb h h'

/-- **No value lies in two cells.** -/
theorem eq_of_mem (h : (ofBits b).Mem v) (h' : (ofBits b').Mem v) : b = b' := by
  rcases Nat.lt_trichotomy b b' with hlt | heq | hgt
  · exact absurd h' (not_mem_of_lt hlt h)
  · exact heq
  · exact absurd h (not_mem_of_lt hgt h')

/-- What lies in the cell of a positive magnitude is positive. -/
theorem Mem.pos (h : (ofBits b).Mem v) (hb : 0 < b) : 0 < v := by
  have hlow : 0 < (ofBits b).twiceLow := by
    have := Binary64.unitsOfBits_strictMono (show 0 < b from hb)
    rw [twiceLow_ofBits]
    exact Nat.mul_pos (by omega) scale_pos
  have hcast : (0 : ℚ) < (ofBits b).twiceLow := by exact_mod_cast hlow
  exact hcast.trans_le h.low_le

/-- A magnitude lies in its own cell. -/
theorem mem_self (b : Nat) : (ofBits b).Mem (ofBits b).twiceValue := by
  have hmono := Binary64.unitsOfBits_strictMono
  have hnext : Binary64.unitsOfBits b < Binary64.unitsOfBits (b + 1) := hmono (by omega)
  have hprev : Binary64.unitsOfBits (b - 1) ≤ Binary64.unitsOfBits b :=
    hmono.monotone (Nat.sub_le b 1)
  have hhigh : (ofBits b).twiceValue < (ofBits b).twiceHigh := by
    rw [twiceValue_ofBits, twiceHigh_ofBits]
    exact Nat.mul_lt_mul_of_pos_right (by omega) scale_pos
  have hlow : (ofBits b).twiceLow ≤ (ofBits b).twiceValue := by
    rw [twiceValue_ofBits, twiceLow_ofBits]
    exact Nat.mul_le_mul_right _ (by omega)
  have hhigh' : ((ofBits b).twiceValue : ℚ) < (ofBits b).twiceHigh := by exact_mod_cast hhigh
  have hlow' : ((ofBits b).twiceLow : ℚ) ≤ (ofBits b).twiceValue := by exact_mod_cast hlow
  unfold Mem
  split
  · exact ⟨hlow', hhigh'.le⟩
  · -- only zero has nothing below it, and its cell is closed
    rename_i hopen
    have hb : 0 < b := by
      rcases Nat.eq_zero_or_pos b with rfl | hb
      · exact absurd rfl hopen
      · exact hb
    have hprev : Binary64.unitsOfBits (b - 1) < Binary64.unitsOfBits b := hmono (by omega)
    have hlow : (ofBits b).twiceLow < (ofBits b).twiceValue := by
      rw [twiceValue_ofBits, twiceLow_ofBits]
      exact Nat.mul_lt_mul_of_pos_right (by omega) scale_pos
    exact ⟨by exact_mod_cast hlow, hhigh'⟩

/-- Zero lies in its own. -/
theorem mem_zero : (ofBits 0).Mem 0 := by
  have hself := mem_self 0
  have hvalue : (ofBits 0).twiceValue = 0 := by
    rw [twiceValue_ofBits, Nat.mul_eq_zero]
    exact .inl rfl
  rwa [hvalue, Nat.cast_zero] at hself

/-! ## The search -/

/-- A multiple of a step of the grid, on the scale of the cells. -/
theorem twice_grid (digits place : Nat) :
    (⟨digits, (place : ℤ) - 1074⟩ : Scientific).twice = (digits * (2 * Nat.pow 10 place) : ℕ) := by
  have hne : (10 : ℚ) ≠ 0 := by norm_num
  unfold Scientific.twice Scientific.value
  rw [zpow_sub₀ hne, zpow_natCast]
  have hscale : (10 : ℚ) ^ (1074 : ℤ) ≠ 0 := zpow_ne_zero _ hne
  have hpow : ((Nat.pow 10 place : ℕ) : ℚ) = 10 ^ place := Nat.cast_pow 10 place
  rw [Nat.cast_mul, Nat.cast_mul, hpow]
  generalize (10 : ℚ) ^ (1074 : ℤ) = scale at hscale
  push_cast
  field_simp

/-- **What a grid answers** lies in the cell. -/
theorem onGrid?_mem {place : Nat} (h : c.onGrid? tie place = some x) : c.Mem x.twice := by
  unfold onGrid? at h
  dsimp only at h
  split at h
  · cases h
  · rename_i hbelow _
    cases h
    rw [twice_grid]
    exact mem_of_contains hbelow
  · rename_i _ habove
    cases h
    rw [twice_grid]
    exact mem_of_contains habove
  · -- both neighbours lie in the cell: the nearer is taken, or the one that the tie says
    rename_i hbelow habove
    split at h
    · cases h
      rw [twice_grid]
      exact mem_of_contains hbelow
    · split at h
      · cases h
        rw [twice_grid]
        exact mem_of_contains habove
      · cases tie with
        | up =>
          cases h
          rw [twice_grid]
          exact mem_of_contains habove
        | even =>
          cases h
          rw [twice_grid]
          rcases Nat.mod_two_eq_zero_or_one (c.twiceValue / (2 * Nat.pow 10 place)) with h | h
          · rw [h]
            exact mem_of_contains hbelow
          · rw [h]
            exact mem_of_contains habove

/-- So does what the search finds. -/
theorem search_mem {total digits fuel : Nat} (h : c.search tie total digits fuel = some x) :
    c.Mem x.twice := by
  induction fuel generalizing digits with
  | zero => cases h
  | succ fuel ih =>
    rw [search] at h
    cases hgrid : c.onGrid? tie (total - digits) with
    | some y =>
      rw [hgrid] at h
      cases h
      exact onGrid?_mem hgrid
    | none =>
      rw [hgrid] at h
      exact ih h

end Cell

/-- Moving zeros into the exponent changes no value. -/
theorem Scientific.value_trim (fuel : Nat) (x : Scientific) : (x.trim fuel).value = x.value := by
  induction fuel generalizing x with
  | zero => rfl
  | succ fuel ih =>
    unfold Scientific.trim
    split
    · rename_i h
      rw [ih]
      unfold Scientific.value
      have hdigits : x.digits = x.digits / 10 * 10 := by omega
      have hcast : (x.digits : ℚ) = ((x.digits / 10 : ℕ) : ℚ) * 10 := by
        exact_mod_cast congrArg (Nat.cast (R := ℚ)) hdigits
      rw [hcast, zpow_add_one₀ (by norm_num)]
      ring
    · rfl

/-- **The shortest decimal lies in the cell** of its magnitude. -/
theorem shortest_mem (tie : Tie) (b : Nat) : (Cell.ofBits b).Mem (shortest tie b).twice := by
  unfold shortest
  dsimp only
  split
  · rename_i x hx
    rw [Scientific.twice, Scientific.value_trim]
    exact Cell.search_mem hx
  · -- without an answer on a grid, the magnitude is written out
    have hgrid := Cell.twice_grid ((Cell.ofBits b).twiceValue / 2) 0
    have hhalf : (Cell.ofBits b).twiceValue / 2 * (2 * Nat.pow 10 0) =
        (Cell.ofBits b).twiceValue := by
      have heven : 2 ∣ (Cell.ofBits b).twiceValue := ⟨_, mul_assoc _ _ _⟩
      have := Nat.div_mul_cancel heven
      simpa using this
    rw [hhalf] at hgrid
    have hself := Cell.mem_self b
    rw [← hgrid] at hself
    simpa using hself

end Decimal

end Conductor
