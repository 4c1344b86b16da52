import Conductor.Decimal.Layout
import Conductor.Proofs.Decimal.Shortest
import Conductor.Proofs.Text.Separator
/-!
# Decimal — what a written number says

A JSON number is written by position, with one decimal point, or in scientific
notation, with an exponent behind an `e`. Either way what is written is one decimal
(`Written.unique`): the one that it was written for, but that a whole number has
a zero behind its point (`written_writeDecimal`). The shortest decimal of a magnitude
lies in its cell, so the text of a finite number tells which number it is
(`write_json_injective`).
-/

namespace Conductor

namespace Decimal

/-- The number that a list of digits is. -/
def natOf (digits : List Char) : Nat := Nat.ofDigitChars 10 digits 0

/-- Digits with a decimal point behind the first, if more follow. -/
def mantissa : List Char → List Char
  | c :: c' :: cs => c :: '.' :: c' :: cs
  | cs => cs

/-- The sign of an exponent. -/
def signOf (exponent : ℤ) : Char := if exponent < 0 then '-' else '+'

/-- All characters are digits. -/
def AllDigits (cs : List Char) : Prop := ∀ c ∈ cs, c.isDigit = true

/-- The digits of a whole number: there are some, and no zero stands before others. -/
structure IsWhole (cs : List Char) : Prop where
  digits : AllDigits cs
  ne_nil : cs ≠ []
  leading : cs.head? = some '0' → cs = ['0']

/-- **What is written** for a decimal: its digits with a point, or with an exponent. -/
inductive Written : List Char → Scientific → Prop
  | positional {whole decimals : List Char} : IsWhole whole → decimals ≠ [] →
    AllDigits decimals →
      Written (whole ++ '.' :: decimals) ⟨natOf (whole ++ decimals), -decimals.length⟩
  | scientific {digits : List Char} {exponent : ℤ} : IsWhole digits →
    Written (mantissa digits ++ 'e' :: signOf exponent :: Nat.toDigits 10 exponent.natAbs)
      ⟨natOf digits, exponent + 1 - digits.length⟩

/-- The decimal that is written for a decimal. Where it is a whole number that is
written by position, it has a zero behind the point. -/
def Scientific.asWritten (x : Scientific) : Scientific :=
  if 0 ≤ x.exponent ∧ width x.digits + x.exponent ≤ 16 then
    ⟨x.digits * 10 ^ (x.exponent.toNat + 1), -1⟩
  else x

/-- The decimal that is written for a magnitude. -/
def printed (magnitude : Nat) : Scientific :=
  if magnitude = 0 then ⟨0, -1⟩ else (shortest .even magnitude).asWritten

variable {t whole decimals digits digits' : List Char} {x y : Scientific}

/-! ## What is written is one decimal -/

theorem AllDigits.not_mem {c : Char} (h : AllDigits t) (hc : c.isDigit = false) : c ∉ t := by
  intro hmem
  rw [h c hmem] at hc
  cases hc

theorem toList_toString (n : Nat) : (toString n).toList = Nat.toDigits 10 n := by
  simp [Nat.repr]

theorem allDigits_toDigits (n : Nat) : AllDigits (Nat.toDigits 10 n) :=
  fun _ hc => Nat.isDigit_of_mem_toDigits (by decide) (by decide) hc

/-- A number other than zero does not begin with a zero. -/
theorem head?_toDigits {n : Nat} (h : n ≠ 0) : (Nat.toDigits 10 n).head? ≠ some '0' := by
  have hdigit : ∀ m < 10, m ≠ 0 → [Nat.digitChar m].head? ≠ some '0' := by decide
  induction n using Nat.strongRecOn with
  | ind n ih =>
    rcases Nat.lt_or_ge n 10 with hlt | hge
    · rw [Nat.toDigits_of_lt_base hlt]
      exact hdigit n hlt h
    · rw [Nat.toDigits_of_base_le (by decide) hge,
        List.head?_append_of_ne_nil _ Nat.toDigits_ne_nil]
      exact ih (n / 10) (by omega) (by omega)

theorem isWhole_toDigits (n : Nat) : IsWhole (Nat.toDigits 10 n) where
  digits := allDigits_toDigits n
  ne_nil := Nat.toDigits_ne_nil
  leading h := by
    by_cases hn : n = 0
    · subst hn
      rfl
    · exact absurd h (head?_toDigits hn)

theorem head_toDigits (n : Nat) : ∃ c cs, Nat.toDigits 10 n = c :: cs ∧ c.isDigit = true := by
  obtain ⟨c, cs, hcs⟩ := List.exists_cons_of_ne_nil (Nat.toDigits_ne_nil (n := n) (b := 10))
  exact ⟨c, cs, hcs, allDigits_toDigits n c (hcs ▸ List.mem_cons_self ..)⟩

/-- The digits of a number tell which number it is. -/
theorem natOf_toDigits (n : Nat) : natOf (Nat.toDigits 10 n) = n := Nat.ofDigitChars_ten_toDigits

theorem toDigits_injective {n m : Nat} (h : Nat.toDigits 10 n = Nat.toDigits 10 m) : n = m := by
  rw [← natOf_toDigits n, h, natOf_toDigits]

/-- A mantissa has the digits, and perhaps a point. -/
theorem filter_mantissa (h : AllDigits digits) : (mantissa digits).filter (· ≠ '.') = digits := by
  have hpoint : ∀ c ∈ digits, c ≠ '.' := by
    rintro c hc rfl
    exact h.not_mem (by decide) hc
  have hall : digits.filter (· ≠ '.') = digits := by
    refine List.filter_eq_self.2 fun c hc => ?_
    exact decide_eq_true (hpoint c hc)
  match digits with
  | [] => rfl
  | [c] => exact hall
  | c :: c' :: cs =>
    have hc : c ≠ '.' := hpoint c (by simp)
    rw [List.filter_cons_of_pos (by simpa using hc)] at hall
    rw [mantissa, List.filter_cons_of_pos (by simpa using hc), List.filter_cons_of_neg (by simp)]
    exact hall

theorem mem_mantissa {c : Char} (h : c ∈ mantissa digits) : c ∈ digits ∨ c = '.' := by
  match digits with
  | [] => exact .inl h
  | [d] => exact .inl h
  | d :: d' :: ds =>
    simp only [mantissa, List.mem_cons] at h ⊢
    tauto

/-- There is no exponent in what is written by position. -/
theorem exponent_not_mem_positional (hw : AllDigits whole) (hd : AllDigits decimals) :
    'e' ∉ whole ++ '.' :: decimals := by
  intro hmem
  rcases List.mem_append.1 hmem with hmem | hmem
  · exact hw.not_mem (by decide) hmem
  · rcases List.mem_cons.1 hmem with hmem | hmem
    · cases hmem
    · exact hd.not_mem (by decide) hmem

theorem exponent_not_mem_mantissa (h : AllDigits digits) : 'e' ∉ mantissa digits := by
  intro hmem
  rcases mem_mantissa hmem with hmem | hmem
  · exact h.not_mem (by decide) hmem
  · cases hmem

/-- An exponent is known by its sign and its digits. -/
theorem exponent_eq {e e' : ℤ} (hsign : signOf e = signOf e') (habs : e.natAbs = e'.natAbs) :
    e = e' := by
  unfold signOf at hsign
  split at hsign <;> split at hsign
  · omega
  · cases hsign
  · cases hsign
  · omega

/-- **What is written is one decimal.** -/
theorem Written.unique (h : Written t x) (h' : Written t y) : x = y := by
  generalize heq : t = t' at h'
  cases h with
  | @positional whole decimals hw _ hd =>
    cases h' with
    | @positional whole' decimals' hw' _ hd' =>
      obtain ⟨rfl, rfl⟩ :=
        Text.cut_first (hw.digits.not_mem (by decide)) (hw'.digits.not_mem (by decide)) heq
      rfl
    | scientific =>
      -- only one of the two has an exponent
      exact absurd (heq ▸ by simp) (exponent_not_mem_positional hw.digits hd)
  | @scientific digits e hds =>
    cases h' with
    | positional hw' _ hd' =>
      exact absurd (heq.symm ▸ by simp) (exponent_not_mem_positional hw'.digits hd')
    | @scientific digits' e' hds' =>
      -- the mantissa ends at the exponent, and has the digits without the point
      obtain ⟨hmantissa, hexp⟩ := Text.cut_first (exponent_not_mem_mantissa hds.digits)
        (exponent_not_mem_mantissa hds'.digits) heq
      obtain ⟨hsign, habs⟩ := List.cons.inj hexp
      obtain rfl := exponent_eq hsign (toDigits_injective habs)
      obtain rfl : digits = digits' := by
        rw [← filter_mantissa hds.digits, hmantissa, filter_mantissa hds'.digits]
      rfl

/-! ## What is written for a decimal -/

theorem natOf_append (ds es : List Char) :
    natOf (ds ++ es) = 10 ^ es.length * natOf ds + natOf es := by
  unfold natOf
  rw [Nat.ofDigitChars_append, Nat.ofDigitChars_eq_ofDigitChars_zero]

theorem natOf_zeros (n : Nat) : natOf (List.replicate n '0') = 0 := by
  unfold natOf
  rw [Nat.ofDigitChars_replicate_zero, mul_zero]

theorem natOf_zero : natOf ['0'] = 0 := natOf_zeros 1

/-- Moving zeros behind the digits changes no value. -/
theorem Scientific.value_asWritten (x : Scientific) : x.asWritten.value = x.value := by
  unfold asWritten
  split
  · rename_i h
    obtain ⟨n, hn⟩ : ∃ n : ℕ, x.exponent = n := ⟨x.exponent.toNat, by omega⟩
    simp only [value, hn, Int.toNat_natCast, Nat.cast_mul, Nat.cast_pow, Nat.cast_ofNat,
      zpow_natCast, zpow_neg_one]
    ring
  · rfl

/-- The digits with the point behind so many of them, and how many are behind it. -/
theorem natOf_positional (digits : String) (point : ℤ) :
    natOf ((positional digits point).1.toList ++ (positional digits point).2.toList) =
        natOf digits.toList * 10 ^ (point - digits.toList.length).toNat ∧
      (positional digits point).2.toList.length = (digits.toList.length - point).toNat := by
  unfold positional zeros
  dsimp only
  rw [← String.length_toList]
  split
  · -- the point stands before the digits, over zeros
    rename_i hpoint
    simp only [String.toList_append, String.toList_ofList, List.length_append,
      List.length_replicate]
    refine ⟨?_, by omega⟩
    change natOf (['0'] ++ (List.replicate _ '0' ++ digits.toList)) = _
    rw [natOf_append, natOf_append, natOf_zeros, natOf_zero,
      show (point - digits.toList.length).toNat = 0 by omega]
    simp
  · split
    · -- it stands behind the digits, over zeros
      simp only [String.toList_append, String.toList_ofList, String.toList_empty, List.append_nil,
        List.length_nil]
      rw [natOf_append, natOf_zeros, List.length_replicate]
      exact ⟨by ring, by omega⟩
    · -- it stands between them
      simp only [String.toList_ofList, List.take_append_drop, List.length_drop]
      rw [show (point - digits.toList.length).toNat = 0 by omega, pow_zero, mul_one]
      exact ⟨rfl, by omega⟩

/-- What stands before the point is a whole number, and behind it are digits. -/
theorem isWhole_positional {digits : String} (h : IsWhole digits.toList)
    (hzero : digits.toList.head? ≠ some '0') (point : ℤ) :
    IsWhole (positional digits point).1.toList ∧ AllDigits (positional digits point).2.toList := by
  have hzeros : ∀ n, AllDigits (List.replicate n '0') := by
    intro n c hc
    rw [List.eq_of_mem_replicate hc]
    decide
  have happend : ∀ {ds es : List Char}, AllDigits ds → AllDigits es → AllDigits (ds ++ es) := by
    intro ds es hds hes c hc
    exact (List.mem_append.1 hc).elim (hds c) (hes c)
  unfold positional zeros
  dsimp only
  split
  · simp only [String.toList_append, String.toList_ofList]
    exact ⟨⟨hzeros 1, by simp, fun _ => rfl⟩, happend (hzeros _) h.digits⟩
  · split
    · simp only [String.toList_append, String.toList_ofList]
      refine ⟨⟨happend h.digits (hzeros _), by simp [h.ne_nil], fun hhead => ?_⟩,
        by simp [AllDigits]⟩
      rw [List.head?_append_of_ne_nil _ h.ne_nil] at hhead
      exact absurd hhead hzero
    · rename_i hpoint _
      have hne : point.toNat ≠ 0 := by omega
      simp only [String.toList_ofList]
      refine ⟨⟨fun c hc => h.digits c (List.mem_of_mem_take hc), by simp [hne, h.ne_nil],
        fun hhead => ?_⟩, fun c hc => h.digits c (List.mem_of_mem_drop hc)⟩
      rw [List.head?_take, if_neg hne] at hhead
      exact absurd hhead hzero

/-- The text of a mantissa. -/
theorem toList_mantissa (digits : String) :
    (if (String.ofList (digits.toList.drop 1)).isEmpty then String.ofList (digits.toList.take 1)
      else String.ofList (digits.toList.take 1) ++ "." ++
        String.ofList (digits.toList.drop 1)).toList = mantissa digits.toList := by
  generalize digits.toList = ds
  match ds with
  | [] => rfl
  | [c] => simp [mantissa]
  | c :: c' :: cs => simp [mantissa, String.isEmpty_iff, ← String.toList_inj]

/-- **What is written for a decimal.** -/
theorem written_writeDecimal (hx : x.digits ≠ 0) :
    Written (Layout.json.writeDecimal x).toList x.asWritten := by
  have hdigits : (toString x.digits).toList = Nat.toDigits 10 x.digits := Nat.toList_repr
  have hwhole : IsWhole (toString x.digits).toList := hdigits ▸ isWhole_toDigits x.digits
  have hzero : (toString x.digits).toList.head? ≠ some '0' := hdigits ▸ head?_toDigits hx
  have hnat : natOf (toString x.digits).toList = x.digits := by rw [hdigits, natOf_toDigits]
  have hwidth : width x.digits = (toString x.digits).toList.length := by rw [hdigits, width]
  unfold Layout.writeDecimal
  dsimp only
  rw [← String.length_toList]
  generalize (toString x.digits) = digits at hdigits hwhole hzero hnat hwidth
  have hpositional : Layout.json.isPositional (digits.toList.length + x.exponent) = true ↔
      -5 < digits.toList.length + x.exponent ∧ digits.toList.length + x.exponent ≤ 16 :=
    decide_eq_true_iff
  split
  · rename_i hpoint
    rw [hpositional] at hpoint
    obtain ⟨hw, hdecimals⟩ :=
      isWhole_positional hwhole hzero (digits.toList.length + x.exponent)
    obtain ⟨hvalue, hlength⟩ := natOf_positional digits (digits.toList.length + x.exponent)
    rw [add_sub_cancel_left, hnat] at hvalue
    generalize positional digits (digits.toList.length + x.exponent) = parts
      at hw hdecimals hvalue hlength
    obtain ⟨whole, decimals⟩ := parts
    dsimp only at hw hdecimals hvalue hlength
    split
    · -- a whole number keeps one decimal
      rename_i whole' heq
      obtain ⟨rfl, rfl⟩ := Prod.mk.inj heq
      simp only [String.toList_empty, List.append_nil, List.length_nil] at hvalue hlength
      have hone := Written.positional hw (List.cons_ne_nil '0' []) (by simp [AllDigits])
      rw [natOf_append, hvalue, natOf_zero] at hone
      have hplace : 0 ≤ x.exponent ∧ width x.digits + x.exponent ≤ 16 := by omega
      rw [Scientific.asWritten, if_pos hplace, pow_succ, ← mul_assoc, mul_comm _ 10]
      simpa [Layout.json] using hone
    · rename_i whole' decimals' hne heq
      obtain ⟨rfl, rfl⟩ := Prod.mk.inj heq
      have hsome : decimals.toList ≠ [] := by
        intro hnil
        exact hne (String.toList_eq_nil_iff.1 hnil)
      have hpos := List.length_pos_iff.2 hsome
      have hplace : ¬ (0 ≤ x.exponent ∧ width x.digits + x.exponent ≤ 16) := by omega
      have hwritten := Written.positional hw hsome hdecimals
      rw [hvalue, show x.exponent.toNat = 0 by omega, pow_zero, mul_one,
        show -(decimals.toList.length : ℤ) = x.exponent by omega] at hwritten
      rw [Scientific.asWritten, if_neg hplace]
      simpa using hwritten
  · rename_i hpoint
    rw [hpositional] at hpoint
    have hlength := List.length_pos_iff.2 hwhole.ne_nil
    have hwritten :=
      @Written.scientific digits.toList (digits.toList.length + x.exponent - 1) hwhole
    rw [hnat, sub_add_cancel, add_sub_cancel_left] at hwritten
    have hplace : ¬ (0 ≤ x.exponent ∧ width x.digits + x.exponent ≤ 16) := by omega
    rw [Scientific.asWritten, if_neg hplace, String.toList_append, String.toList_append,
      toList_mantissa]
    generalize (digits.toList.length + x.exponent - 1 : ℤ) = exponent at hwritten
    have hmark : (if exponent < 0 then "e-" else "e+").toList = ['e', signOf exponent] := by
      unfold signOf
      split <;> rfl
    have habs : (toString exponent.natAbs).toList = Nat.toDigits 10 exponent.natAbs :=
      Nat.toList_repr
    rw [hmark, habs, List.append_assoc]
    exact hwritten

/-! ## What is written for a number -/

/-- What is written begins with a digit. -/
theorem Written.head (h : Written t x) : ∃ c cs, t = c :: cs ∧ c.isDigit = true := by
  cases h with
  | @positional whole decimals hw _ _ =>
    obtain ⟨c, cs, rfl⟩ := List.exists_cons_of_ne_nil hw.ne_nil
    exact ⟨c, cs ++ '.' :: decimals, rfl, hw.digits c (by simp)⟩
  | @scientific digits e hds =>
    match digits with
    | [] => exact absurd rfl hds.ne_nil
    | [c] => exact ⟨c, _, rfl, hds.digits c (by simp)⟩
    | c :: c' :: cs => exact ⟨c, _, rfl, hds.digits c (by simp)⟩

/-- The characters that numbers are written with. -/
def IsNumberChar (c : Char) : Prop := c.isDigit = true ∨ c ∈ ['.', 'e', '+', '-']

/-- It is written with these. -/
theorem Written.chars (h : Written t x) : ∀ c ∈ t, IsNumberChar c := by
  cases h with
  | positional hw _ hd =>
    intro c hc
    rcases List.mem_append.1 hc with hc | hc
    · exact .inl (hw.digits c hc)
    · rcases List.mem_cons.1 hc with rfl | hc
      · exact .inr (by simp)
      · exact .inl (hd c hc)
  | @scientific digits e hds =>
    intro c hc
    rcases List.mem_append.1 hc with hc | hc
    · rcases mem_mantissa hc with hc | rfl
      · exact .inl (hds.digits c hc)
      · exact .inr (by simp)
    · rcases List.mem_cons.1 hc with rfl | hc
      · exact .inr (by simp)
      · rcases List.mem_cons.1 hc with rfl | hc
        · unfold signOf
          split
          · exact .inr (by simp)
          · exact .inr (by simp)
        · exact .inl (allDigits_toDigits _ c hc)

/-- A point or an exponent tells it from a whole number. -/
theorem Written.mark (h : Written t x) : '.' ∈ t ∨ 'e' ∈ t := by
  cases h with
  | positional => exact .inl (by simp)
  | scientific => exact .inr (by simp)

/-- The shortest decimal of a positive magnitude is positive, -/
theorem shortest_value_pos {b : Nat} (hb : 0 < b) : 0 < (shortest .even b).value := by
  have htwice := (shortest_mem .even b).pos hb
  have hscale : (0 : ℚ) < 2 * 10 ^ (1074 : ℤ) := mul_pos two_pos (zpow_pos (by norm_num) _)
  exact (mul_pos_iff_of_pos_left hscale).1 htwice

/-- and so it has digits. -/
theorem shortest_digits_ne_zero {b : Nat} (hb : 0 < b) : (shortest .even b).digits ≠ 0 := by
  intro hzero
  have hpos := shortest_value_pos hb
  rw [Scientific.value, hzero, Nat.cast_zero, zero_mul] at hpos
  exact lt_irrefl _ hpos

/-- What is written for a magnitude lies in its cell. -/
theorem printed_mem (b : Nat) : (Cell.ofBits b).Mem (printed b).twice := by
  unfold printed
  split
  · rename_i hzero
    rw [hzero, Scientific.twice, Scientific.value, Nat.cast_zero, zero_mul, mul_zero]
    exact Cell.mem_zero
  · rw [Scientific.twice, Scientific.value_asWritten]
    exact shortest_mem .even b

/-- **The decimal that is written tells the magnitude.** -/
theorem printed_injective {b b' : Nat} (h : printed b = printed b') : b = b' :=
  Cell.eq_of_mem (printed_mem b) (h ▸ printed_mem b')

/-- The text of a finite number is its sign, and its decimal written. -/
theorem written_write {x : Binary64} (h : x.isFinite = true) :
    ∃ t, (Layout.json.write x).toList = (if x.isNegative then ['-'] else []) ++ t ∧
      Written t (printed x.magnitudeBits) := by
  have hnan : x.isNaN = false := by
    rw [Binary64.isFinite, decide_eq_true_eq] at h
    rw [Binary64.isNaN, decide_eq_false_iff_not]
    omega
  have hsign : (if x.isNegative then "-" else "").toList = if x.isNegative then ['-'] else [] := by
    split <;> rfl
  unfold Layout.write printed
  rw [if_neg (by simp [hnan])]
  dsimp only
  rw [if_neg (by simp [h])]
  split
  · have hdigit : AllDigits ['0'] := by simp [AllDigits]
    have hwhole : IsWhole ['0'] := ⟨hdigit, by simp, fun _ => rfl⟩
    have hzero := Written.positional hwhole (List.cons_ne_nil _ _) hdigit
    rw [show natOf (['0'] ++ ['0']) = 0 from natOf_zeros 2] at hzero
    refine ⟨['0', '.', '0'], ?_, hzero⟩
    rw [String.toList_append, hsign]
    rfl
  · rename_i hne
    refine ⟨_, ?_, written_writeDecimal (shortest_digits_ne_zero (by omega))⟩
    rw [String.toList_append, hsign]
    rfl

/-- A sign or none, and something that begins with a digit: the sign tells itself. -/
theorem signed_inj {p q : Prop} [Decidable p] [Decidable q] {t t' : List Char}
    (ht : ∃ c cs, t = c :: cs ∧ c.isDigit = true) (ht' : ∃ c cs, t' = c :: cs ∧ c.isDigit = true)
    (h : (if p then ['-'] else []) ++ t = (if q then ['-'] else []) ++ t') :
    (p ↔ q) ∧ t = t' := by
  obtain ⟨c, cs, rfl, hc⟩ := ht
  obtain ⟨c', cs', rfl, hc'⟩ := ht'
  have hminus : ∀ {d : Char}, d.isDigit = true → d ≠ '-' := by
    rintro d hd rfl
    cases hd
  by_cases hp : p <;> by_cases hq : q <;>
    simp only [hp, hq, if_true, if_false, List.nil_append, List.cons_append] at h
  · exact ⟨iff_of_true hp hq, (List.cons.inj h).2⟩
  · exact absurd (List.cons.inj h).1.symm (hminus hc')
  · exact absurd (List.cons.inj h).1 (hminus hc)
  · exact ⟨iff_of_false hp hq, h⟩

/-- A number is its sign and its magnitude. -/
theorem eq_of_magnitudeBits {x y : Binary64} (hsign : x.isNegative = y.isNegative)
    (h : x.magnitudeBits = y.magnitudeBits) : x = y := by
  have hx := x.bits.toNat_lt
  have hy := y.bits.toNat_lt
  rw [Bool.eq_iff_iff, Binary64.isNegative, Binary64.isNegative, beq_iff_eq, beq_iff_eq] at hsign
  unfold Binary64.magnitudeBits at h
  unfold Binary64.signBit at hsign h
  have heq : x.bits.toNat = y.bits.toNat := by omega
  obtain ⟨bits⟩ := x
  obtain ⟨bits'⟩ := y
  exact congrArg Binary64.mk (UInt64.toNat_inj.1 heq)

/-- **The text of a finite number tells which it is.** -/
theorem write_json_injective {x y : Binary64} (hx : x.isFinite = true) (hy : y.isFinite = true)
    (h : Layout.json.write x = Layout.json.write y) : x = y := by
  obtain ⟨t, ht, hwritten⟩ := written_write hx
  obtain ⟨t', ht', hwritten'⟩ := written_write hy
  rw [h, ht'] at ht
  obtain ⟨hsign, rfl⟩ := signed_inj hwritten'.head hwritten.head ht
  exact eq_of_magnitudeBits (Bool.eq_iff_iff.2 hsign.symm)
    (printed_injective (hwritten.unique hwritten'))

end Decimal

end Conductor
