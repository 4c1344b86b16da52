import Conductor.Decimal.Parts
import Conductor.Decimal.Width
import Conductor.Proofs.Decimal.Digits
/-!
# Decimal — what is read of a decimal

A decimal is read with two roundings, so it may be read as another number than the one
that it was written for. But it is always read as some number: what is written for a finite
number is never too large to be read (`exists_ofParts?_printed`), for both roundings keep the
order, and at the few places where a product comes close to the largest number it has been
computed. And where the digits and the power of ten are both members of the format, only one
rounding is left, and the number is the one that was written (`ofParts?_printed_eq_self`).
-/

namespace Conductor

namespace Binary64

variable {x x' y y' : Binary64} {negative : Bool} {num num' den den' digits n j bits : Nat} {e : ℤ}

/-! ## Signs -/

theorem toNat_ofSign (h : bits < signBit) :
    (ofSign negative bits).bits.toNat = (if negative then signBit else 0) + bits := by
  unfold ofSign
  refine UInt64.toNat_ofNat_of_lt ?_
  unfold signBit at *
  split <;> simp only [UInt64.size] <;> omega

theorem magnitudeBits_ofSign (h : bits < signBit) :
    (ofSign negative bits).magnitudeBits = bits := by
  rw [magnitudeBits, toNat_ofSign h]
  cases negative with
  | false => simpa using Nat.mod_eq_of_lt h
  | true => simpa using Nat.mod_eq_of_lt h

theorem isFinite_iff : x.isFinite = true ↔ x.magnitudeBits < infinityBits := decide_eq_true_iff

theorem magnitudeBits_ofRatio :
    (ofRatio negative num den).magnitudeBits = min (nearestBits num den) infinityBits := by
  rw [ofRatio_eq, magnitudeBits_ofSign]
  exact (Nat.min_le_right ..).trans_lt (by decide)

/-! ## Few digits -/

/-- Few digits with powers of two behind them fill the digits kept behind a shift. -/
theorem exists_shift_ofNat (h : n ≤ 2 * exponentBit) (j : Nat) : ∃ s k, s ≤ 1074 + j ∧
    k ≤ 2 * exponentBit ∧ (s = 0 ∨ exponentBit ≤ k) ∧ k * 2 ^ s = n * 2 ^ j * one := by
  -- under a name, so that no power is computed
  obtain ⟨m, hm⟩ : ∃ m : ℕ, m = 1074 := ⟨1074, rfl⟩
  have hone : one = 2 ^ m := by
    have hpow : ∀ i, Nat.pow 2 i = 2 ^ i := fun _ => rfl
    unfold one
    rw [← hm, hpow]
  rcases Nat.eq_zero_or_pos n with rfl | hpos
  · exact ⟨0, 0, by omega, by decide, .inl rfl, by simp⟩
  rcases Nat.lt_or_ge n exponentBit with hlow | hhigh
  · have hlog := Nat.log2_self_le hpos.ne'
    have hlog' := Nat.lt_log2_self (n := n)
    have hlt : n.log2 < 52 := (Nat.log2_lt hpos.ne').2 hlow
    refine ⟨1022 + n.log2 + j, n * 2 ^ (52 - n.log2), by omega, ?_, .inr ?_, ?_⟩
    · calc n * 2 ^ (52 - n.log2) ≤ 2 ^ (n.log2 + 1) * 2 ^ (52 - n.log2) :=
            Nat.mul_le_mul_right _ hlog'.le
        _ = 2 ^ 53 := by rw [← pow_add, show n.log2 + 1 + (52 - n.log2) = 53 by omega]
    · calc 2 ^ 52 = 2 ^ n.log2 * 2 ^ (52 - n.log2) := by
            rw [← pow_add, show n.log2 + (52 - n.log2) = 52 by omega]
        _ ≤ n * 2 ^ (52 - n.log2) := Nat.mul_le_mul_right _ hlog
    · rw [mul_assoc, mul_assoc, hone, ← pow_add, ← pow_add,
        show 52 - n.log2 + (1022 + n.log2 + j) = j + m by omega]
  · refine ⟨m + j, n, by omega, h, .inr hhigh, ?_⟩
    rw [mul_assoc, hone, ← pow_add, Nat.add_comm]

/-- **Digits that the format has room for** are not rounded, nor are they with powers of two
behind them. -/
theorem nearestBits_shifted (h : n ≤ 2 * exponentBit) (hj : j ≤ 64) :
    nearestBits (n * 2 ^ j) 1 < infinityBits ∧
      unitsOfBits (nearestBits (n * 2 ^ j) 1) = n * 2 ^ j * one := by
  obtain ⟨s, k, hs, hk, hcut, hvalue⟩ := exists_shift_ofNat h j
  have hbits : nearestBits (n * 2 ^ j) 1 = s * exponentBit + k :=
    Decimal.nearestBits_of_units Nat.one_pos <| by
      rw [unitsOfBits_shift hk hcut, hvalue]
      exact (Nat.mul_one _).symm
  rw [hbits]
  refine ⟨?_, (unitsOfBits_shift hk hcut).trans hvalue⟩
  unfold infinityBits exponentBit at *
  omega

theorem units_shifted (h : n ≤ 2 * exponentBit) (hj : j ≤ 64) :
    (ofNat (n * 2 ^ j)).units = n * 2 ^ j * one := by
  obtain ⟨hfinite, hunits⟩ := nearestBits_shifted h hj
  rw [units, ofNat, magnitudeBits_ofRatio, Nat.min_eq_left hfinite.le, hunits]

theorem units_ofNat (h : n ≤ 2 * exponentBit) : (ofNat n).units = n * one := by
  simpa using units_shifted h (Nat.zero_le 64)

/-- **Powers of ten that the format has room for** are numbers of it. -/
theorem units_powerOfTen (hn : n < 23) : (powerOfTen n).units = Nat.pow 10 n * one := by
  have hfive : 5 ^ n ≤ 2 * exponentBit :=
    (Nat.pow_le_pow_right (by decide) (Nat.le_of_lt_succ hn)).trans (by decide)
  have hten : Nat.pow 10 n = 5 ^ n * 2 ^ n := Nat.mul_pow 5 2 n
  rw [powerOfTen, hten]
  exact units_shifted hfive (by omega)

/-! ## Rounding keeps the order -/

/-- Quotients that are equal are rounded to the same pattern. -/
theorem nearestBits_congr (hden : 0 < den) (hden' : 0 < den') (h : num * den' = num' * den) :
    nearestBits num den = nearestBits num' den' :=
  le_antisymm (Decimal.nearestBits_mono hden hden' h.le) (Decimal.nearestBits_mono hden' hden h.ge)

theorem units_ofNat_mono (h : num ≤ num') : (ofNat num).units ≤ (ofNat num').units := by
  refine unitsOfBits_strictMono.monotone ?_
  rw [ofNat, ofNat, magnitudeBits_ofRatio, magnitudeBits_ofRatio]
  exact min_le_min_right _ (Decimal.nearestBits_mono Nat.one_pos Nat.one_pos (by omega))

theorem units_powerOfTen_mono (h : n ≤ num) : (powerOfTen n).units ≤ (powerOfTen num).units :=
  units_ofNat_mono (Nat.pow_le_pow_right (by decide) h)

/-- A product is finite if a larger one is. -/
theorem isFinite_mul_of_le (hx : x.units ≤ x'.units) (hy : y.units ≤ y'.units)
    (h : (x'.mul y').isFinite = true) : (x.mul y).isFinite = true := by
  have hone : 0 < one * one := Nat.mul_pos one_pos one_pos
  have hle : nearestBits (x.units * y.units) (one * one) ≤
      nearestBits (x'.units * y'.units) (one * one) :=
    Decimal.nearestBits_mono hone hone (Nat.mul_le_mul_right _ (Nat.mul_le_mul hx hy))
  rw [isFinite_iff, mul, magnitudeBits_ofRatio] at h ⊢
  omega

/-- No power of ten is below one. -/
theorem one_le_units_powerOfTen (n : Nat) : one ≤ (powerOfTen n).units := by
  have hunit := units_ofNat (n := 1) (by decide)
  rw [Nat.one_mul] at hunit
  exact hunit.ge.trans (units_ofNat_mono (Nat.pow_pos (by decide)))

/-- A quotient by what is not below one is no larger than the dividend. -/
theorem magnitudeBits_div_le (hy : one ≤ y.units) :
    (x.div y).magnitudeBits ≤ x.magnitudeBits := by
  have hself : nearestBits x.units one = x.magnitudeBits :=
    Decimal.nearestBits_of_units one_pos rfl
  rw [div, magnitudeBits_ofRatio, ← hself]
  exact (Nat.min_le_left ..).trans
    (Decimal.nearestBits_mono (one_pos.trans_le hy) one_pos (Nat.mul_le_mul_left _ hy))

/-- **Scaling down** makes no number larger. -/
theorem magnitudeBits_scaleDown_le (x : Binary64) (n : Nat) :
    (x.scaleDown n).magnitudeBits ≤ x.magnitudeBits := by
  fun_induction scaleDown x n with
  | case1 x n h => exact magnitudeBits_div_le (one_le_units_powerOfTen n)
  | case2 x n h hzero => exact Nat.le_refl _
  | case3 x n h hzero ih => exact ih.trans (magnitudeBits_div_le (one_le_units_powerOfTen _))

/-! ## Numbers that are read -/

/-- Digits that 64 bits hold are far from infinite. -/
theorem isFinite_ofNat (h : n < Width.natBound64) : (ofNat n).isFinite = true := by
  have hle : nearestBits n 1 ≤ nearestBits (1 * 2 ^ 64) 1 :=
    Decimal.nearestBits_mono Nat.one_pos Nat.one_pos (Nat.mul_le_mul_right 1 h.le)
  have hbound : nearestBits (1 * 2 ^ 64) 1 < infinityBits :=
    (nearestBits_shifted (by decide) (Nat.le_refl 64)).1
  rw [isFinite_iff, ofNat, magnitudeBits_ofRatio]
  exact (Nat.min_le_left ..).trans_lt (hle.trans_lt hbound)

/-- **What is read is finite.** -/
theorem isFinite_of_magnitudeOfParts? (h : digits < Width.natBound64)
    (hread : magnitudeOfParts? digits e = some x) : x.isFinite = true := by
  unfold magnitudeOfParts? at hread
  dsimp only at hread
  by_cases hneg : e < 0
  · rw [if_pos hneg] at hread
    obtain rfl := Option.some.inj hread
    exact isFinite_iff.2
      ((magnitudeBits_scaleDown_le ..).trans_lt (isFinite_iff.1 (isFinite_ofNat h)))
  rw [if_neg hneg] at hread
  by_cases hle : e ≤ maxPower
  · rw [if_pos hle, Option.ite_none_right_eq_some, Option.some.injEq] at hread
    rw [← hread.2]
    exact hread.1
  · rw [if_neg hle, Option.ite_none_right_eq_some, Option.some.injEq] at hread
    rw [← hread.2]
    exact isFinite_ofNat h

/-- With its sign, too. -/
theorem isFinite_of_ofParts? (h : digits < Width.natBound64)
    (hread : ofParts? negative digits e = some x) : x.isFinite = true := by
  obtain ⟨y, hy, rfl⟩ := Option.map_eq_some_iff.1 hread
  have hfinite := isFinite_iff.1 (isFinite_of_magnitudeOfParts? h hy)
  rw [isFinite_iff, magnitudeBits_ofSign (hfinite.trans (by decide))]
  exact hfinite

end Binary64

namespace Decimal

open Binary64

variable {x : Binary64} {digits n bits : Nat} {e : ℤ}

/-! ## What is written is read -/

/-- The middle between the two largest numbers. -/
def edge : Nat := Nat.pow 2 1024 - Nat.pow 2 971 - Nat.pow 2 970

/-- It has no more digits than the largest power of ten. -/
theorem edge_bounds :
    unitsOfBits (infinityBits - 2) + unitsOfBits (infinityBits - 1) = 2 * (edge * one) ∧
      edge < Nat.pow 10 (maxPower + 1) := by
  decide +kernel

/-- **No product is infinite** with the most digits that are written: seventeen up to the
power 291, and above it those that stay below the edge. -/
theorem isFinite_mul_edge :
    ((ofNat (10 ^ 17)).mul (powerOfTen 291)).isFinite = true ∧
      ∀ k < 17, ((ofNat (edge / Nat.pow 10 (292 + k))).mul (powerOfTen (292 + k))).isFinite =
        true := by
  decide +kernel

/-- What is written for all but the largest number stays below the edge. -/
theorem printed_mul_pow_le (hbits : bits + 1 < infinityBits)
    (he : (printed bits).exponent = n) : (printed bits).digits * 10 ^ n ≤ edge := by
  have hmono := unitsOfBits_strictMono.monotone
  have hsum : unitsOfBits bits + unitsOfBits (bits + 1) ≤ 2 * (edge * one) := by
    rw [← edge_bounds.1]
    exact Nat.add_le_add (hmono (by omega)) (hmono (by omega))
  have hone : (0 : ℚ) < 2 * one := mul_pos two_pos (by exact_mod_cast one_pos)
  have hhigh := (printed_mem bits).units_bounds.2
  rw [Scientific.value, he, zpow_natCast] at hhigh
  have hle : 2 * (one : ℚ) * ((printed bits).digits * 10 ^ n) ≤ 2 * one * edge :=
    calc 2 * (one : ℚ) * ((printed bits).digits * 10 ^ n)
        ≤ (unitsOfBits bits + unitsOfBits (bits + 1) : ℕ) := hhigh
      _ ≤ (2 * (edge * one) : ℕ) := by exact_mod_cast hsum
      _ = 2 * one * edge := by push_cast; ring
  exact_mod_cast le_of_mul_le_mul_left hle hone

/-- **A product that is written is finite.** -/
theorem isFinite_mul_printed (hbits : bits + 1 < infinityBits)
    (he : (printed bits).exponent = n) (hn : n ≤ maxPower) :
    ((ofNat (printed bits).digits).mul (powerOfTen n)).isFinite = true := by
  rcases Nat.lt_or_ge n 292 with hlow | hhigh
  · exact isFinite_mul_of_le (units_ofNat_mono (printed_digits_le bits))
      (units_powerOfTen_mono (by omega)) isFinite_mul_edge.1
  · have hdigits : (printed bits).digits ≤ edge / 10 ^ n :=
      (Nat.le_div_iff_mul_le (Nat.pow_pos (by decide))).2 (printed_mul_pow_le hbits he)
    obtain ⟨k, rfl⟩ : ∃ k, n = 292 + k := ⟨n - 292, by omega⟩
    unfold maxPower at hn
    exact isFinite_mul_of_le (units_ofNat_mono hdigits) (Nat.le_refl _)
      (isFinite_mul_edge.2 k (by omega))

/-- Nothing that is written needs a larger power. -/
theorem exponent_printed_le (hbits : bits + 1 < infinityBits)
    (he : (printed bits).exponent = n) : n ≤ maxPower := by
  have hne : (printed bits).digits ≠ 0 := by
    unfold printed at he ⊢
    split
    · rename_i hzero
      rw [if_pos hzero] at he
      cases he
    · rename_i hpos
      have hdigits := shortest_digits_ne_zero (Nat.pos_of_ne_zero hpos)
      unfold Scientific.asWritten
      split
      · exact Nat.mul_ne_zero hdigits (Nat.pow_pos (by decide)).ne'
      · exact hdigits
  by_contra hlt
  have hmono : ∀ {i j}, i ≤ j → Nat.pow 10 i ≤ Nat.pow 10 j := Nat.pow_le_pow_right (by decide)
  have hlarge : Nat.pow 10 (maxPower + 1) ≤ Nat.pow 10 n := hmono (Nat.lt_of_not_le hlt)
  have hle : (printed bits).digits * Nat.pow 10 n ≤ edge := printed_mul_pow_le hbits he
  have hone := Nat.le_mul_of_pos_left (Nat.pow 10 n) (Nat.pos_of_ne_zero hne)
  exact absurd edge_bounds.2 (Nat.not_lt.2 ((hlarge.trans hone).trans hle))

/-- The largest number itself is read as well. -/
theorem magnitudeOfParts?_printed_max :
    (magnitudeOfParts? (printed (infinityBits - 1)).digits
      (printed (infinityBits - 1)).exponent).isSome = true := by
  decide +kernel

/-- **What is written for a finite number is read** as some number. -/
theorem exists_ofParts?_printed {negative : Bool} (hbits : bits < infinityBits) :
    ∃ y, ofParts? negative (printed bits).digits (printed bits).exponent = some y := by
  suffices h : ∃ y, magnitudeOfParts? (printed bits).digits (printed bits).exponent = some y by
    obtain ⟨y, hy⟩ := h
    exact ⟨_, by rw [ofParts?, hy]; rfl⟩
  by_cases hmax : bits = infinityBits - 1
  · rw [hmax]
    exact Option.isSome_iff_exists.1 magnitudeOfParts?_printed_max
  have hbits : bits + 1 < infinityBits := by omega
  unfold magnitudeOfParts?
  dsimp only
  split
  · exact ⟨_, rfl⟩
  · obtain ⟨n, hn⟩ : ∃ n : ℕ, (printed bits).exponent = n :=
      ⟨(printed bits).exponent.toNat, by omega⟩
    have hle := exponent_printed_le hbits hn
    rw [hn, if_pos (Nat.cast_le.2 hle), Int.natAbs_natCast,
      if_pos (isFinite_mul_printed hbits hn hle)]
    exact ⟨_, rfl⟩

/-! ## What is read exactly -/

/-- A quotient that has the value written for a finite magnitude is rounded to it. -/
theorem nearestBits_printed {num den : Nat} (hden : 0 < den)
    (h : (num : ℚ) / den = (printed bits).value) : nearestBits num den = bits := by
  refine Cell.eq_of_mem (nearestBits_mem num hden) ?_
  rw [twiceRatio_of_value h]
  exact printed_mem bits

/-- The quotient of few digits by a power of ten is rounded once, -/
theorem magnitudeBits_div_powerOfTen (hbits : bits < infinityBits)
    (hdigits : digits ≤ 2 * exponentBit) (hn : n < 23) (h : (printed bits).value = digits / 10 ^ n) :
    ((ofNat digits).div (powerOfTen n)).magnitudeBits = bits := by
  have hone := Binary64.one_pos
  have hpos : 0 < Nat.pow 10 n := Nat.pow_pos (by decide)
  have hvalue : (digits : ℚ) / (Nat.pow 10 n : ℕ) = (printed bits).value := by
    rw [h]
    exact congrArg _ (Nat.cast_pow 10 n)
  have hquotient : nearestBits (digits * one) (Nat.pow 10 n * one) = bits := by
    rw [← nearestBits_printed hpos hvalue]
    exact nearestBits_congr (Nat.mul_pos hpos hone) hpos (by ring)
  rw [div, magnitudeBits_ofRatio, units_ofNat hdigits, units_powerOfTen hn, hquotient,
    Nat.min_eq_left hbits.le]

/-- and so is their product. -/
theorem magnitudeBits_mul_powerOfTen (hbits : bits < infinityBits)
    (hdigits : digits ≤ 2 * exponentBit) (hn : n < 23) (h : (printed bits).value = digits * 10 ^ n) :
    ((ofNat digits).mul (powerOfTen n)).magnitudeBits = bits := by
  have hone := Binary64.one_pos
  have hvalue : ((digits * Nat.pow 10 n : ℕ) : ℚ) / (1 : ℕ) = (printed bits).value := by
    rw [h, Nat.cast_one, div_one, Nat.cast_mul]
    exact congrArg _ (Nat.cast_pow 10 n)
  have hproduct : nearestBits (digits * one * (Nat.pow 10 n * one)) (one * one) = bits := by
    rw [← nearestBits_printed Nat.one_pos hvalue]
    exact nearestBits_congr (Nat.mul_pos hone hone) Nat.one_pos (by ring)
  rw [mul, magnitudeBits_ofRatio, units_ofNat hdigits, units_powerOfTen hn, hproduct,
    Nat.min_eq_left hbits.le]

/-- **A number with few digits is read as it was written**: where the digits and the power of
ten are numbers of the format, only the product or the quotient is rounded. -/
theorem ofParts?_printed_eq_self (hx : x.isFinite = true)
    (hdigits : (printed x.magnitudeBits).digits ≤ 2 * exponentBit)
    (hlow : -22 ≤ (printed x.magnitudeBits).exponent)
    (hhigh : (printed x.magnitudeBits).exponent ≤ 22) :
    ofParts? x.isNegative (printed x.magnitudeBits).digits (printed x.magnitudeBits).exponent =
      some x := by
  have hfinite := isFinite_iff.1 hx
  have hread : ∃ y, magnitudeOfParts? (printed x.magnitudeBits).digits
      (printed x.magnitudeBits).exponent = some y ∧ y.magnitudeBits = x.magnitudeBits := by
    unfold magnitudeOfParts?
    dsimp only
    split
    · obtain ⟨n, hn⟩ : ∃ n : ℕ, (printed x.magnitudeBits).exponent = -n :=
        ⟨(printed x.magnitudeBits).exponent.natAbs, by omega⟩
      refine ⟨_, rfl, ?_⟩
      rw [hn, Int.natAbs_neg, Int.natAbs_natCast, scaleDown, if_pos (by unfold maxPower; omega)]
      refine magnitudeBits_div_powerOfTen hfinite hdigits (by omega) ?_
      rw [Scientific.value, hn, zpow_neg, zpow_natCast, div_eq_mul_inv]
    · obtain ⟨n, hn⟩ : ∃ n : ℕ, (printed x.magnitudeBits).exponent = n :=
        ⟨(printed x.magnitudeBits).exponent.natAbs, by omega⟩
      have hbits := magnitudeBits_mul_powerOfTen hfinite hdigits (show n < 23 by omega) <| by
        rw [Scientific.value, hn, zpow_natCast]
      have hle : (printed x.magnitudeBits).exponent ≤ maxPower := by unfold maxPower; omega
      rw [if_pos hle, hn, Int.natAbs_natCast, if_pos (isFinite_iff.2 (hbits.trans_lt hfinite))]
      exact ⟨_, rfl, hbits⟩
  obtain ⟨y, hy, hbits⟩ := hread
  rw [ofParts?, hy, Option.map_some, hbits, ofSign_eq]

end Decimal

end Conductor
