import Conductor.Proofs.Decimal.Rounding
import Conductor.Proofs.Decimal.Written
/-!
# Decimal — seventeen digits suffice

The neighbours of a magnitude are further apart than the steps of a grid of decimals
with seventeen digits (`Binary64.twice_units_lt`), so one of the two decimals of such a
grid beside the magnitude lies in its cell (`Cell.onGrid?_ne_none`). The search for the
shortest decimal therefore ends within seventeen digits, and no text of a number has more
(`printed_digits_le`).
-/

namespace Conductor

variable {b n place : Nat}

namespace Binary64

/-- A pattern counts a shift above the digits kept. -/
theorem exists_shift (b : Nat) : ∃ s k, b = s * exponentBit + k ∧ k < 2 * exponentBit ∧
    (s = 0 ∨ exponentBit ≤ k) := by
  unfold exponentBit
  by_cases hlow : b < 4503599627370496
  · exact ⟨0, b, by omega, by omega, .inl rfl⟩
  · exact ⟨b / 4503599627370496 - 1, 4503599627370496 + b % 4503599627370496, by omega, by omega,
      .inr (by omega)⟩

/-- **The neighbours of a magnitude** are more than two parts in `10 ^ 16` of it apart. -/
theorem twice_units_lt (hb : 0 < b) :
    2 * unitsOfBits b + 10 ^ 16 * unitsOfBits (b - 1) < 10 ^ 16 * unitsOfBits (b + 1) := by
  obtain ⟨s, k, rfl, hk, hs⟩ := exists_shift b
  have hnext := le_units_add_units_succ hk.le hs
  have hprev := units_add_units_pred_le hk.le hs
  have hmono := unitsOfBits_strictMono.monotone (Nat.sub_le (s * exponentBit + k) 1)
  have hpow := Nat.two_pow_pos s
  rw [unitsOfBits_shift hk.le hs] at hnext hprev hmono ⊢
  generalize unitsOfBits (s * exponentBit + k - 1) = prev at *
  generalize unitsOfBits (s * exponentBit + k + 1) = next at *
  generalize 2 ^ s = unit at *
  unfold exponentBit at *
  have hsmall : k * unit < 9007199254740992 * unit := Nat.mul_lt_mul_of_pos_right hk hpow
  rcases hprev with hprev | rfl | ⟨-, rfl⟩
  · nlinarith
  · omega
  · -- below the first pattern of a shift only the upper neighbour is far away
    nlinarith

end Binary64

namespace Decimal

namespace Cell

variable {c : Cell} {tie : Tie} {x : Scientific}

theorem contains_of_lt (hlow : c.twiceLow < n) (hhigh : n < c.twiceHigh) :
    c.contains n = true := by
  unfold contains
  split
  · simp [hlow.le, hhigh.le]
  · simp [hlow, hhigh]

/-- A grid without an answer has neither neighbour in the cell. -/
theorem not_contains_of_onGrid? (h : c.onGrid? tie place = none) :
    c.contains (c.twiceValue / (2 * Nat.pow 10 place) * (2 * Nat.pow 10 place)) = false ∧
      c.contains ((c.twiceValue / (2 * Nat.pow 10 place) + 1) * (2 * Nat.pow 10 place)) =
        false := by
  unfold onGrid? at h
  dsimp only at h
  split at h
  · exact ⟨‹_›, ‹_›⟩
  · cases h
  · cases h
  · split at h
    · cases h
    · split at h
      · cases h
      · cases tie <;> cases h

/-- Then the cell lies between them, if the magnitude is within. -/
theorem bounds_of_onGrid? (h : c.onGrid? tie place = none) (hlow : c.twiceLow < c.twiceValue)
    (hhigh : c.twiceValue < c.twiceHigh) :
    c.twiceValue / (2 * Nat.pow 10 place) * (2 * Nat.pow 10 place) ≤ c.twiceLow ∧
      c.twiceHigh ≤ (c.twiceValue / (2 * Nat.pow 10 place) + 1) * (2 * Nat.pow 10 place) := by
  obtain ⟨hnotBelow, hnotAbove⟩ := not_contains_of_onGrid? h
  have hstep : 0 < 2 * Nat.pow 10 place := Nat.mul_pos two_pos (Nat.pow_pos (by decide))
  have hbelow := Nat.div_mul_le_self c.twiceValue (2 * Nat.pow 10 place)
  have habove := Nat.lt_div_mul_add hstep (a := c.twiceValue)
  constructor
  · by_contra hlt
    rw [contains_of_lt (Nat.lt_of_not_le hlt) (hbelow.trans_lt hhigh)] at hnotBelow
    cases hnotBelow
  · by_contra hlt
    rw [contains_of_lt (hlow.trans (by rwa [Nat.succ_mul])) (Nat.lt_of_not_le hlt)] at hnotAbove
    cases hnotAbove

/-- A magnitude is within its cell. -/
theorem twiceLow_lt (hb : 0 < b) : (ofBits b).twiceLow < (ofBits b).twiceValue := by
  have hprev : Binary64.unitsOfBits (b - 1) < Binary64.unitsOfBits b :=
    Binary64.unitsOfBits_strictMono (by omega)
  rw [twiceLow_ofBits, twiceValue_ofBits]
  exact Nat.mul_lt_mul_of_pos_right (by omega) scale_pos

theorem lt_twiceHigh (b : Nat) : (ofBits b).twiceValue < (ofBits b).twiceHigh := by
  have hnext : Binary64.unitsOfBits b < Binary64.unitsOfBits (b + 1) :=
    Binary64.unitsOfBits_strictMono (by omega)
  rw [twiceHigh_ofBits, twiceValue_ofBits]
  exact Nat.mul_lt_mul_of_pos_right (by omega) scale_pos

/-- **A fine grid has an answer**: one with seventeen digits, or with all there are. -/
theorem onGrid?_ne_none (hb : 0 < b)
    (hplace : place = 0 ∨ 10 ^ 16 * (2 * Nat.pow 10 place) ≤ (ofBits b).twiceValue) :
    (ofBits b).onGrid? tie place ≠ none := by
  intro hnone
  -- else the neighbours on the grid lie on either side of the cell
  have hwithin := twiceLow_lt hb
  obtain ⟨hle, hge⟩ := bounds_of_onGrid? hnone hwithin (lt_twiceHigh b)
  rcases hplace with rfl | hplace
  · -- but this grid has the magnitude itself
    have hone : 2 * Nat.pow 10 0 = 2 := rfl
    have heven : 2 ∣ (ofBits b).twiceValue := by
      rw [twiceValue_ofBits, mul_assoc]
      exact dvd_mul_right ..
    rw [hone, Nat.div_mul_cancel heven] at hle
    omega
  · -- and the steps of these are not as wide as the cell
    have hwide : (ofBits b).twiceHigh ≤ (ofBits b).twiceLow + 2 * Nat.pow 10 place := by
      rw [Nat.succ_mul] at hge
      omega
    have hfar := Binary64.twice_units_lt hb
    have hpos := scale_pos
    rw [twiceHigh_ofBits, twiceLow_ofBits] at hwide
    rw [twiceValue_ofBits] at hplace
    generalize scale = scale at *
    nlinarith

/-- The answer of a grid has no more digits than it says. -/
theorem digits_of_onGrid? (h : c.onGrid? tie place = some x)
    (hc : c.twiceValue < 2 * Nat.pow 10 place * 10 ^ n) : x.digits ≤ 10 ^ n := by
  have hbelow : c.twiceValue / (2 * Nat.pow 10 place) < 10 ^ n := Nat.div_lt_of_lt_mul hc
  unfold onGrid? at h
  dsimp only at h
  generalize c.twiceValue / (2 * Nat.pow 10 place) = below at *
  split at h
  · cases h
  · cases h
    exact hbelow.le
  · cases h
    exact hbelow
  · split at h
    · cases h
      exact hbelow.le
    · split at h
      · cases h
        exact hbelow
      · cases tie <;> cases h
        · change below + below % 2 ≤ 10 ^ n
          omega
        · exact hbelow

/-- What is found within so many digits has no more. -/
theorem digits_of_search {total digits fuel : Nat} (hc : c.twiceValue < 2 * 10 ^ total)
    (h : c.search tie total digits fuel = some x) : x.digits ≤ 10 ^ (digits + fuel - 1) := by
  induction fuel generalizing digits with
  | zero => cases h
  | succ fuel ih =>
    rw [search] at h
    cases hgrid : c.onGrid? tie (total - digits) with
    | some y =>
      rw [hgrid] at h
      cases h
      have hpow : 10 ^ total ≤ 10 ^ (total - digits) * 10 ^ digits := by
        rw [← pow_add]
        exact Nat.pow_le_pow_right (by decide) (by omega)
      have hle : x.digits ≤ 10 ^ digits := by
        refine digits_of_onGrid? hgrid ?_
        change _ < 2 * 10 ^ (total - digits) * 10 ^ digits
        linarith
      exact hle.trans (Nat.pow_le_pow_right (by decide) (by omega))
    | none =>
      rw [hgrid] at h
      have := ih h
      rwa [show digits + 1 + fuel - 1 = digits + (fuel + 1) - 1 by omega] at this

/-- An answer of one of the grids is found, or one before it. -/
theorem search_ne_none {total digits fuel k : Nat} (hk : digits ≤ k ∧ k < digits + fuel)
    (h : c.onGrid? tie (total - k) ≠ none) : c.search tie total digits fuel ≠ none := by
  induction fuel generalizing digits with
  | zero => omega
  | succ fuel ih =>
    rw [search]
    cases hgrid : c.onGrid? tie (total - digits) with
    | some y => simp
    | none =>
      have hne : digits ≠ k := by
        rintro rfl
        exact h hgrid
      rw [Option.none_or]
      exact ih (by omega)

end Cell

/-- Moving zeros into the exponent leaves no more digits. -/
theorem Scientific.digits_trim_le (fuel : Nat) (x : Scientific) :
    (x.trim fuel).digits ≤ x.digits := by
  induction fuel generalizing x with
  | zero => exact Nat.le_refl _
  | succ fuel ih =>
    unfold Scientific.trim
    split
    · exact (ih _).trans (Nat.div_le_self ..)
    · exact Nat.le_refl _

/-- **The shortest decimal has at most seventeen digits.** -/
theorem shortest_digits_le (tie : Tie) (hb : 0 < b) : (shortest tie b).digits ≤ 10 ^ 17 := by
  have hne : (Cell.ofBits b).twiceValue / 2 ≠ 0 := by
    have hunits := Binary64.unitsOfBits_strictMono (show 0 < b from hb)
    have hpos := Nat.mul_pos (Nat.zero_lt_of_lt hunits) Cell.scale_pos
    rw [Cell.twiceValue_ofBits, mul_assoc, Nat.mul_div_cancel_left _ two_pos]
    exact hpos.ne'
  obtain ⟨hlow, hhigh⟩ := width_bounds hne
  have hwidth : (Cell.ofBits b).twiceValue < 2 * 10 ^ width ((Cell.ofBits b).twiceValue / 2) := by
    omega
  have hgrid : (Cell.ofBits b).onGrid? tie (width ((Cell.ofBits b).twiceValue / 2) - 17) ≠
      none := by
    refine Cell.onGrid?_ne_none hb ?_
    generalize width ((Cell.ofBits b).twiceValue / 2) = total at *
    rcases Nat.lt_or_ge total 17 with hlt | hge
    · exact .inl (by omega)
    · refine .inr ?_
      change 10 ^ 16 * (2 * 10 ^ (total - 17)) ≤ _
      have hpow : 10 ^ (total - 1) = 10 ^ 16 * 10 ^ (total - 17) := by
        rw [← pow_add]
        congr 1
        omega
      omega
  unfold shortest
  dsimp only
  split
  · rename_i x hx
    exact (x.digits_trim_le 20).trans (Cell.digits_of_search hwidth hx)
  · rename_i hnone
    exact absurd hnone (Cell.search_ne_none (by omega) hgrid)

/-- **No text of a number has more than seventeen digits.** -/
theorem printed_digits_le (b : Nat) : (printed b).digits ≤ 10 ^ 17 := by
  unfold printed
  split
  · exact Nat.zero_le _
  · rename_i hb
    have hshort := shortest_digits_le .even (Nat.pos_of_ne_zero hb)
    have hne := shortest_digits_ne_zero (Nat.pos_of_ne_zero hb)
    generalize shortest .even b = x at *
    unfold Scientific.asWritten
    split
    · rename_i hplace
      have hdigits := (width_bounds hne).2
      calc x.digits * 10 ^ (x.exponent.toNat + 1)
          ≤ 10 ^ width x.digits * 10 ^ (x.exponent.toNat + 1) := Nat.mul_le_mul_right _ hdigits.le
        _ = 10 ^ (width x.digits + (x.exponent.toNat + 1)) := (pow_add ..).symm
        _ ≤ 10 ^ 17 := Nat.pow_le_pow_right (by decide) (by omega)
    · exact hshort

end Decimal

end Conductor
