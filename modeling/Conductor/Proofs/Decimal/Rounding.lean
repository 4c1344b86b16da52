import Conductor.Proofs.Decimal.Shortest
/-!
# Decimal — rounding to the format

A quotient of natural numbers is rounded to a magnitude in whose cell it lies
(`nearestBits_mem`). No value lies in two cells, and the cells have the order of their
magnitudes, so rounding keeps the order of quotients (`nearestBits_mono`), and what is a
number of the format already is rounded to itself (`nearestBits_of_units`).
-/

namespace Conductor

variable {a b q r num den digits s k : Nat} {negative : Bool}

/-! ## Whole numbers -/

theorem nearestEven_mul_add (hr : r < b) : nearestEven (b * q + r) b =
    if 2 * r < b then q else if b < 2 * r then q + 1 else q + q % 2 := by
  have hquot : (b * q + r) / b = q := by
    rw [Nat.mul_add_div (Nat.zero_lt_of_lt hr), Nat.div_eq_of_lt hr, Nat.add_zero]
  have hrest : (b * q + r) % b = r := by rw [Nat.mul_add_mod, Nat.mod_eq_of_lt hr]
  simp only [nearestEven, hquot, hrest]

/-- **The nearest whole number** is at most a half away, and an odd one is less than a
half away. -/
theorem nearestEven_bounds (a : Nat) (hb : 0 < b) :
    2 * nearestEven a b * b + nearestEven a b % 2 ≤ 2 * a + b ∧
      2 * a + nearestEven a b % 2 ≤ (2 * nearestEven a b + 1) * b := by
  obtain ⟨q, r, hr, rfl⟩ : ∃ q r, r < b ∧ a = b * q + r :=
    ⟨a / b, a % b, Nat.mod_lt a hb, (Nat.div_add_mod a b).symm⟩
  have hparity : ∀ n, n % 2 ≤ 1 := fun n => by omega
  rw [nearestEven_mul_add hr]
  split
  · constructor <;> nlinarith [hparity q]
  · split
    · constructor <;> nlinarith [hparity (q + 1)]
    · -- at exactly a half the even one is taken
      rw [show (q + q % 2) % 2 = 0 by omega]
      rcases Nat.mod_two_eq_zero_or_one q with hq | hq <;> rw [hq] <;> constructor <;> nlinarith

namespace Binary64

theorem one_pos : 0 < one := by
  have hpow : ∀ n, 0 < Nat.pow 2 n := fun n => Nat.pow_pos (by decide)
  unfold one
  apply hpow

/-- The pattern of the magnitude nearest to a quotient, if there were no largest one. -/
def nearestBits (num den : Nat) : Nat :=
  let shift := (num * one / den).log2 - 52
  shift * exponentBit + nearestEven (num * one) (den * Nat.pow 2 shift)

theorem ofRatio_eq :
    ofRatio negative num den = ofSign negative (min (nearestBits num den) infinityBits) := rfl

/-! ## The units of patterns -/

/-- **The units of a pattern** that counts a shift above the digits kept. -/
theorem unitsOfBits_shift (hk : k ≤ 2 * exponentBit) (hs : s = 0 ∨ exponentBit ≤ k) :
    unitsOfBits (s * exponentBit + k) = k * 2 ^ s := by
  unfold unitsOfBits
  unfold exponentBit at *
  by_cases hlow : s * 4503599627370496 + k < 4503599627370496
  · obtain rfl : s = 0 := by omega
    rw [if_pos hlow]
    simp
  · rw [if_neg hlow]
    change _ * 2 ^ _ = _
    by_cases hcarry : k = 2 * 4503599627370496
    · -- the digits kept have a carry, and the exponent goes up
      subst hcarry
      rw [show (s * 4503599627370496 + 2 * 4503599627370496) / 4503599627370496 - 1 = s + 1 by
          omega,
        show (s * 4503599627370496 + 2 * 4503599627370496) % 4503599627370496 = 0 by omega]
      ring
    · rw [show (s * 4503599627370496 + k) / 4503599627370496 - 1 = s by omega]
      congr 1
      omega

/-- The units up to the middle between such a pattern and the next. -/
theorem le_units_add_units_succ (hk : k ≤ 2 * exponentBit) (hs : s = 0 ∨ exponentBit ≤ k) :
    (2 * k + 1) * 2 ^ s ≤
      unitsOfBits (s * exponentBit + k) + unitsOfBits (s * exponentBit + k + 1) := by
  have hstep : (k + 1) * 2 ^ s ≤ unitsOfBits (s * exponentBit + k + 1) := by
    by_cases hcarry : k = 2 * exponentBit
    · have hnext := @unitsOfBits_shift (s + 1) (exponentBit + 1) (by decide)
        (.inr (Nat.le_succ _))
      rw [show s * exponentBit + k + 1 = (s + 1) * exponentBit + (exponentBit + 1) by
        rw [hcarry]; ring, hnext, hcarry, pow_succ]
      nlinarith [Nat.two_pow_pos s]
    · rw [Nat.add_assoc, unitsOfBits_shift (by omega) (by omega)]
  rw [unitsOfBits_shift hk hs]
  linarith

/-- Down to the middle between it and the one before. -/
theorem units_add_units_pred_le (hk : k ≤ 2 * exponentBit) (hs : s = 0 ∨ exponentBit ≤ k) :
    unitsOfBits (s * exponentBit + k) + unitsOfBits (s * exponentBit + k - 1) + 2 ^ s ≤
        2 * k * 2 ^ s ∨ k = 0 ∨ s ≠ 0 ∧ k = exponentBit := by
  by_cases hend : k = 0 ∨ s ≠ 0 ∧ k = exponentBit
  · exact .inr hend
  · refine .inl ?_
    rw [Nat.add_sub_assoc (by omega), unitsOfBits_shift hk hs,
      unitsOfBits_shift (by omega) (by omega)]
    obtain ⟨n, rfl⟩ : ∃ n, k = n + 1 := ⟨k - 1, by omega⟩
    rw [Nat.add_sub_cancel]
    linarith

/-- The digits that are kept of a quotient: at most 53 bits, and no fewer if some are dropped. -/
theorem kept_bounds (hden : 0 < den) (hs : s = (a / den).log2 - 52) :
    nearestEven a (den * 2 ^ s) ≤ 2 * exponentBit ∧
      (s = 0 ∨ exponentBit * (den * 2 ^ s) ≤ a ∧ exponentBit ≤ nearestEven a (den * 2 ^ s)) := by
  have hpos : 0 < den * 2 ^ s := Nat.mul_pos hden (Nat.two_pow_pos s)
  obtain ⟨hlow, hhigh⟩ := nearestEven_bounds a hpos
  replace hlow := (Nat.le_add_right _ _).trans hlow
  replace hhigh := (Nat.le_add_right _ _).trans hhigh
  have hupper : a < 2 * exponentBit * (den * 2 ^ s) := by
    have hlog : a / den < 2 ^ (53 + s) :=
      Nat.lt_log2_self.trans_le (Nat.pow_le_pow_right (by decide) (by omega))
    have hlt := (Nat.div_lt_iff_lt_mul hden).1 hlog
    rw [pow_add] at hlt
    change a < 2 ^ 53 * (den * 2 ^ s)
    linarith
  generalize hunit : den * 2 ^ s = unit at *
  refine ⟨?_, ?_⟩
  · by_contra hlt
    have hmul : (2 * exponentBit + 1) * unit ≤ nearestEven a unit * unit :=
      Nat.mul_le_mul_right unit (Nat.lt_of_not_le hlt)
    linarith
  · rcases Nat.eq_zero_or_pos s with hzero | hshift
    · exact .inl hzero
    · have hne : a / den ≠ 0 := by
        intro hzero
        rw [hzero] at hs
        simp at hs
        omega
      have hlog : 2 ^ (52 + s) ≤ a / den :=
        (Nat.pow_le_pow_right (by decide) (by omega)).trans (Nat.log2_self_le hne)
      have hle := (Nat.le_div_iff_mul_le hden).1 hlog
      rw [pow_add] at hle
      have hlower : exponentBit * unit ≤ a := by
        change 2 ^ 52 * unit ≤ a
        rw [← hunit]
        linarith
      refine .inr ⟨hlower, ?_⟩
      by_contra hlt
      have hmul : (nearestEven a unit + 1) * unit ≤ exponentBit * unit :=
        Nat.mul_le_mul_right unit (Nat.lt_of_not_le hlt)
      linarith

/-- **A quotient lies between the middles** to the neighbours of the pattern that it is
rounded to, and at a middle only if that is even. -/
theorem nearestBits_bounds (num : Nat) (hden : 0 < den) :
    (unitsOfBits (nearestBits num den) + unitsOfBits (nearestBits num den - 1)) * den +
        nearestBits num den % 2 ≤ 2 * (num * one) ∧
      2 * (num * one) + nearestBits num den % 2 ≤
        (unitsOfBits (nearestBits num den) + unitsOfBits (nearestBits num den + 1)) * den := by
  obtain ⟨s, hs⟩ : ∃ s, s = (num * one / den).log2 - 52 := ⟨_, rfl⟩
  have hbits : nearestBits num den =
      s * exponentBit + nearestEven (num * one) (den * 2 ^ s) := by
    rw [hs]
    rfl
  rw [hbits]
  generalize num * one = a at *
  obtain ⟨hk, hdropped⟩ := kept_bounds hden hs
  obtain ⟨hlow, hhigh⟩ := nearestEven_bounds a (Nat.mul_pos hden (Nat.two_pow_pos s))
  generalize nearestEven a (den * 2 ^ s) = k at *
  have hs' : s = 0 ∨ exponentBit ≤ k := hdropped.imp id And.right
  have hparity : (s * exponentBit + k) % 2 = k % 2 := by
    unfold exponentBit
    omega
  have hunits := unitsOfBits_shift hk hs'
  have hnext := Nat.mul_le_mul_right den (le_units_add_units_succ hk hs')
  rw [hparity]
  refine ⟨?_, by linarith⟩
  rcases units_add_units_pred_le hk hs' with hprev | rfl | ⟨hne, rfl⟩
  · have := Nat.mul_le_mul_right den hprev
    linarith
  · -- nothing is below zero
    obtain rfl : s = 0 := by
      unfold exponentBit at hs'
      omega
    simp [unitsOfBits, exponentBit]
  · -- below the first pattern of a shift the middle is nearer
    obtain ⟨hlower, -⟩ := hdropped.resolve_left hne
    have hmono := unitsOfBits_strictMono.monotone (Nat.sub_le (s * exponentBit + exponentBit) 1)
    rw [hunits] at hmono ⊢
    have := Nat.mul_le_mul_right den hmono
    rw [show exponentBit % 2 = 0 by decide]
    linarith

end Binary64

namespace Decimal

open Binary64

namespace Cell

/-- On the scale everything is a whole number that is one as a decimal. -/
theorem scale_mul_one : (10 : ℚ) ^ (1074 : ℤ) = scale * one := by
  have hpow : ∀ n : ℕ, (10 : ℚ) ^ (n : ℤ) = (Nat.pow 5 n : ℕ) * (Nat.pow 2 n : ℕ) := by
    intro n
    change _ = ((5 ^ n : ℕ) : ℚ) * ((2 ^ n : ℕ) : ℚ)
    rw [zpow_natCast, Nat.cast_pow, Nat.cast_pow, ← mul_pow]
    norm_num
  -- under a name, so that no power is computed
  obtain ⟨n, hn⟩ : ∃ n : ℕ, n = 1074 := ⟨1074, rfl⟩
  unfold scale one
  rw [← hn, ← hpow n, hn, Nat.cast_ofNat]

end Cell

/-- A quotient on the scale of the cells, doubled. -/
def twiceRatio (num den : Nat) : ℚ := 2 * 10 ^ (1074 : ℤ) * (num / den)

theorem twiceRatio_eq : twiceRatio num den = (Cell.scale * (2 * (num * one)) : ℕ) / den := by
  rw [twiceRatio, Cell.scale_mul_one]
  push_cast
  ring

theorem le_twiceRatio_iff {n : Nat} (hden : 0 < den) :
    ((n * Cell.scale : ℕ) : ℚ) ≤ twiceRatio num den ↔ n * den ≤ 2 * (num * one) := by
  have hden' : (0 : ℚ) < den := by exact_mod_cast hden
  rw [twiceRatio_eq, le_div_iff₀ hden', mul_comm n, ← Nat.cast_mul, Nat.cast_le, mul_assoc,
    Nat.mul_le_mul_left_iff Cell.scale_pos]

theorem twiceRatio_le_iff {n : Nat} (hden : 0 < den) :
    twiceRatio num den ≤ ((n * Cell.scale : ℕ) : ℚ) ↔ 2 * (num * one) ≤ n * den := by
  have hden' : (0 : ℚ) < den := by exact_mod_cast hden
  rw [twiceRatio_eq, div_le_iff₀ hden', mul_comm n, ← Nat.cast_mul, Nat.cast_le, mul_assoc,
    Nat.mul_le_mul_left_iff Cell.scale_pos]

/-- **What is rounded** lies in the cell of the outcome. -/
theorem nearestBits_mem (num : Nat) (hden : 0 < den) :
    (Cell.ofBits (nearestBits num den)).Mem (twiceRatio num den) := by
  obtain ⟨hlow, hhigh⟩ := nearestBits_bounds num hden
  generalize nearestBits num den = bits at *
  rcases Nat.mod_two_eq_zero_or_one bits with heven | hodd
  · have hclosed : (Cell.ofBits bits).closed = true := beq_iff_eq.2 heven
    rw [Cell.Mem, if_pos hclosed, Cell.twiceLow_ofBits, Cell.twiceHigh_ofBits]
    exact ⟨(le_twiceRatio_iff hden).2 (by omega), (twiceRatio_le_iff hden).2 (by omega)⟩
  · have hopen : (Cell.ofBits bits).closed = false := beq_eq_false_iff_ne.2 (by omega)
    rw [Cell.Mem, if_neg (by simp [hopen]), Cell.twiceLow_ofBits, Cell.twiceHigh_ofBits,
      ← not_le, ← not_le]
    exact ⟨mt (twiceRatio_le_iff hden).1 (by omega), mt (le_twiceRatio_iff hden).1 (by omega)⟩

/-- **Rounding keeps the order** of quotients. -/
theorem nearestBits_mono {num' den' : Nat} (hden : 0 < den) (hden' : 0 < den')
    (h : num * den' ≤ num' * den) : nearestBits num den ≤ nearestBits num' den' := by
  by_contra hlt
  have hless := Cell.lt_of_mem (Nat.lt_of_not_le hlt) (nearestBits_mem num' hden')
    (nearestBits_mem num hden)
  have hscale : (0 : ℚ) < 2 * 10 ^ (1074 : ℤ) := mul_pos two_pos (zpow_pos (by norm_num) _)
  have hcast : (num : ℚ) * den' ≤ num' * den := by exact_mod_cast h
  have hdiv : (num : ℚ) / den ≤ num' / den' :=
    (div_le_div_iff₀ (by exact_mod_cast hden) (by exact_mod_cast hden')).2 hcast
  exact absurd hless (not_lt.2 (mul_le_mul_of_nonneg_left hdiv hscale.le))

/-- **What is a member of the format** is rounded to itself. -/
theorem nearestBits_of_units {bits : Nat} (hden : 0 < den)
    (h : num * one = unitsOfBits bits * den) : nearestBits num den = bits := by
  refine Cell.eq_of_mem (nearestBits_mem num hden) ?_
  have hden' : (den : ℚ) ≠ 0 := by exact_mod_cast hden.ne'
  have hvalue : twiceRatio num den = (Cell.ofBits bits).twiceValue := by
    rw [twiceRatio_eq, div_eq_iff hden', ← Nat.cast_mul, Nat.cast_inj, h, Cell.twiceValue_ofBits]
    ring
  rw [hvalue]
  exact Cell.mem_self bits

/-! ## Decimals -/

/-- The digits of a number say how large it is. -/
theorem width_bounds (h : digits ≠ 0) :
    10 ^ (width digits - 1) ≤ digits ∧ digits < 10 ^ width digits := by
  have hpos : 0 < width digits := Nat.length_toDigits_pos
  refine ⟨?_, (Nat.length_toDigits_le_iff (by decide) hpos).1 (Nat.le_refl _)⟩
  by_contra hlt
  rcases Nat.eq_zero_or_pos (width digits - 1) with hzero | hone
  · rw [hzero, pow_zero] at hlt
    omega
  · have := (Nat.length_toDigits_le_iff (by decide) hone).2 (Nat.lt_of_not_le hlt)
    unfold width at *
    omega

/-- What lies in a cell, in units. -/
theorem Cell.Mem.units_bounds {bits : Nat} {x : Scientific} (h : (Cell.ofBits bits).Mem x.twice) :
    ((unitsOfBits bits + unitsOfBits (bits - 1) : ℕ) : ℚ) ≤ 2 * (one : ℕ) * x.value ∧
      2 * (one : ℕ) * x.value ≤ ((unitsOfBits bits + unitsOfBits (bits + 1) : ℕ) : ℚ) := by
  have hscale : (0 : ℚ) < Cell.scale := by exact_mod_cast Cell.scale_pos
  have htwice : x.twice = Cell.scale * (2 * (one : ℕ) * x.value) := by
    rw [Scientific.twice, Cell.scale_mul_one]
    ring
  have hlow := h.low_le
  have hhigh := h.le_high
  rw [htwice, Cell.twiceLow_ofBits, Nat.cast_mul, mul_comm] at hlow
  rw [htwice, Cell.twiceHigh_ofBits, Nat.cast_mul, mul_comm (Nat.cast (_ + _))] at hhigh
  exact ⟨le_of_mul_le_mul_left hlow hscale, le_of_mul_le_mul_left hhigh hscale⟩

/-- A quotient that has the value of a decimal. -/
theorem twiceRatio_of_value {x : Scientific} (h : (num : ℚ) / den = x.value) :
    twiceRatio num den = x.twice := by
  rw [twiceRatio, h, Scientific.twice]

end Decimal

namespace Binary64

/-- A number is made of its sign and its magnitude. -/
theorem ofSign_eq (x : Binary64) : ofSign x.isNegative x.magnitudeBits = x := by
  obtain ⟨bits⟩ := x
  have hlt := bits.toNat_lt
  have hbits : (if bits.toNat / signBit == 1 then signBit else 0) + bits.toNat % signBit =
      bits.toNat := by
    unfold signBit
    split
    · rename_i hsign
      rw [beq_iff_eq] at hsign
      omega
    · rename_i hsign
      rw [beq_iff_eq] at hsign
      omega
  exact congrArg mk ((congrArg UInt64.ofNat hbits).trans UInt64.ofNat_toNat)

end Binary64

end Conductor
