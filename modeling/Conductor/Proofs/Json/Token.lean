import Conductor.Json.Reader
import Conductor.Proofs.Decimal.Parts
import Conductor.Proofs.Json.Text
import Conductor.Proofs.Text.Utf8
/-!
# JSON — tokens are read as they are written

The scanners of tokens invert the writers: a string is read to its closing quotation
mark and is the one that was escaped (`scanString_stringChars`), and a number is read to
the mark behind it. An integer is the one that was written. Of a real number the decimal
is read that was written for it, digit for digit, and what the reader makes of that is
`Number.reread` (`scanNumber_text`).
-/

namespace Conductor

namespace Json

open Text.Utf8

variable {c : Char} {cs ds xs : List Char} {b : UInt8} {bs done : List UInt8} {flaw : Option Flaw}
  {negative : Bool}

/-! ## Strings -/

/-- An octet that means nothing in a string is taken in. -/
theorem scanString_plain (hquote : b ≠ 0x22) (hlow : ¬ b < 0x20) (hslash : b ≠ 0x5C) :
    scanString done flaw (b :: bs) = scanString (b :: done) flaw bs := by
  rw [scanString.eq_def]
  simp only [if_neg hquote, if_neg hlow, if_pos hslash]

/-- So are all octets of a character that is not escaped. -/
theorem scanString_other (h : c ∉ specials) :
    scanString done flaw (String.utf8EncodeChar c ++ bs) =
      scanString ((String.utf8EncodeChar c).reverseAux done) flaw bs := by
  rw [mem_specials] at h
  have hnot : ∀ b ∈ String.utf8EncodeChar c, b ≠ 0x22 ∧ ¬ b < 0x20 ∧ b ≠ 0x5C := by
    intro b hb
    refine ⟨?_, fun hlow => ?_, ?_⟩
    · rintro rfl
      exact h (.inr (.inl (eq_singleton_of_mem hb (by decide)).2))
    · have hlow' := UInt8.lt_iff_toNat_lt.1 hlow
      simp only [UInt8.reduceToNat] at hlow'
      have hc := (eq_singleton_of_mem hb (by omega)).2
      exact h (.inl (by omega))
    · rintro rfl
      exact h (.inr (.inr (eq_singleton_of_mem hb (by decide)).2))
  generalize String.utf8EncodeChar c = octets at hnot
  induction octets generalizing done with
  | nil => rfl
  | cons b octets ih =>
    obtain ⟨hquote, hlow, hslash⟩ := hnot b (List.mem_cons_self ..)
    rw [List.cons_append, scanString_plain hquote hlow hslash,
      ih fun b hb => hnot b (List.mem_cons_of_mem _ hb), List.reverseAux_cons]

/-- A short escape. -/
theorem scanString_short {e : UInt8} (he : e ≠ 0x75) (h : shortEscape? e = some b) :
    scanString done flaw (0x5C :: e :: bs) = scanString (b :: done) flaw bs := by
  rw [scanString.eq_def]
  simp [he, h]

/-- An escape by number, of a character of ASCII. -/
theorem scanString_unit {u : List UInt8} {n : Nat} (hu : hexUnit u = .ok (n, bs))
    (hn : n < 0x80) : scanString done flaw (0x5C :: 0x75 :: u) =
      scanString (UInt8.ofNat n :: done) flaw bs := by
  have hone : String.utf8EncodeChar (Char.ofNat n) = [UInt8.ofNat n] := by
    have hascii : ∀ n < 0x80, (Char.ofNat n).toNat = n := by decide
    rw [encodeChar_ascii (by rw [hascii n hn]; exact hn), hascii n hn]
  have hneither : isTrail n = false ∧ isLead n = false := by
    simp only [isTrail, isLead, Bool.and_eq_false_iff, decide_eq_false_iff_not]
    omega
  rw [scanString.eq_def]
  simp only [show (0x5C : UInt8) ≠ 0x22 by decide, show ¬ (0x5C : UInt8) < 0x20 by decide, ne_eq,
    not_true, if_false]
  split
  · rename_i hflaw
    rw [hu] at hflaw
    cases hflaw
  · rename_i hok
    rw [hu] at hok
    cases hok
    rw [if_neg (by simp [hneither]), if_neg (by simp [hneither]), hone]
    rfl

/-- A character that is escaped is read as itself. -/
theorem scanString_special {n : Nat} (h : n < 32 ∨ n = 34 ∨ n = 92) :
    scanString done flaw (encode (escapeChar (Char.ofNat n)) ++ bs) =
      scanString (UInt8.ofNat n :: done) flaw bs := by
  rcases h with h | rfl | rfl
  · interval_cases n
    all_goals first
      | exact scanString_short (by decide) rfl
      | exact scanString_unit rfl (by decide)
  · exact scanString_short (by decide) rfl
  · exact scanString_short (by decide) rfl

/-- **A character** is read as itself, escaped or not. -/
theorem scanString_escapeChar (c : Char) :
    scanString done flaw (encode (escapeChar c) ++ bs) =
      scanString ((String.utf8EncodeChar c).reverseAux done) flaw bs := by
  by_cases hc : c ∈ specials
  · have hcode := mem_specials.1 hc
    have hspecial := @scanString_special bs done flaw _ hcode
    rw [Char.ofNat_toNat] at hspecial
    rw [hspecial, encodeChar_ascii (by omega)]
    rfl
  · rw [escapeChar_other hc, encode_cons, encode_nil, List.append_nil]
    exact scanString_other hc

/-- So are all characters of a string. -/
theorem scanString_escaped (cs : List Char) :
    scanString done flaw (encode (cs.flatMap escapeChar) ++ bs) =
      scanString ((encode cs).reverseAux done) flaw bs := by
  induction cs generalizing done with
  | nil => rfl
  | cons c cs ih =>
    rw [List.flatMap_cons, encode_append, List.append_assoc, scanString_escapeChar, ih, encode_cons]
    simp [List.reverseAux_eq]

/-- **A string** is read to its closing quotation mark, and is the one that was written. -/
theorem scanString_stringChars (s : String) :
    scanString [] none (encode (s.toList.flatMap escapeChar ++ '"' :: xs)) =
      ⟨.string s, some (encode xs)⟩ := by
  have hquote : encode ('"' :: xs) = 0x22 :: encode xs := rfl
  rw [encode_append, scanString_escaped, hquote, scanString.eq_def]
  simp only [if_true, stringDocument, List.reverseAux_eq, List.append_nil, List.reverse_reverse]
  have hread : toString? (encode s.toList) = some s := toString?_ofString s
  rw [hread]

/-! ## Digits -/

/-- What follows is nothing, or the mark behind an item. -/
def Closes (xs : List Char) : Prop := ∀ c ∈ xs.head?, c ∈ [',', ']', '\x7d']

theorem Closes.eq_or (h : Closes (c :: cs)) : c = ',' ∨ c = ']' ∨ c = '\x7d' := by
  simpa using h c rfl

theorem isDigit_iff : isDigit b = true ↔ 48 ≤ b.toNat ∧ b.toNat ≤ 57 := by
  simp [isDigit, UInt8.le_iff_toNat_le]

/-- A digit is one octet. -/
theorem encode_digits (h : Decimal.AllDigits ds) :
    encode ds = ds.map fun c => UInt8.ofNat c.toNat := by
  induction ds with
  | nil => rfl
  | cons d ds ih =>
    have hd := Char.isDigit_iff_toNat.1 (h d (List.mem_cons_self ..))
    rw [encode_cons_ascii (by simp at hd; omega), ih fun c hc => h c (List.mem_cons_of_mem _ hc),
      List.map_cons]

/-- The octets of digits are digits, -/
theorem isDigit_of_mem (h : Decimal.AllDigits ds) : ∀ b ∈ encode ds, isDigit b = true := by
  intro b hb
  rw [encode_digits h] at hb
  obtain ⟨d, hd, rfl⟩ := List.mem_map.1 hb
  have := Char.isDigit_iff_toNat.1 (h d hd)
  rw [isDigit_iff]
  simp at this ⊢
  omega

/-- and that of any other character is not. -/
theorem isDigit_head (h : ∀ c ∈ xs.head?, c.isDigit = false) :
    ∀ b ∈ (encode xs).head?, isDigit b = false := by
  cases xs with
  | nil => simp
  | cons c cs =>
    intro b hb
    have hmem : b ∈ String.utf8EncodeChar c := by
      have hne : String.utf8EncodeChar c ≠ [] := by simp [String.utf8EncodeChar_ne_nil]
      rw [encode_cons, List.head?_append_of_ne_nil _ hne] at hb
      exact List.mem_of_mem_head? hb
    by_contra hdigit
    have hrange := isDigit_iff.1 (Bool.of_not_eq_false hdigit)
    have hcode := (eq_singleton_of_mem hmem (by omega)).2
    have hc : c.isDigit = true := Char.isDigit_iff_toNat.2 (by simp; omega)
    rw [h c rfl] at hc
    cases hc

/-- **Digits** are read to their end. -/
theorem span_digits (h : Decimal.AllDigits ds) (hx : ∀ c ∈ xs.head?, c.isDigit = false) :
    (encode (ds ++ xs)).takeWhile isDigit = encode ds ∧
      (encode (ds ++ xs)).dropWhile isDigit = encode xs := by
  have hhead := isDigit_head hx
  have hends : (encode xs).takeWhile isDigit = [] ∧ (encode xs).dropWhile isDigit = encode xs := by
    generalize encode xs = bs at hhead
    cases bs with
    | nil => exact ⟨rfl, rfl⟩
    | cons b bs => simp [hhead b rfl]
  rw [encode_append, List.takeWhile_append_of_pos (isDigit_of_mem h),
    List.dropWhile_append_of_pos (isDigit_of_mem h), hends.1, hends.2, List.append_nil]
  exact ⟨rfl, rfl⟩

/-- They write the number that they are. -/
theorem digitsValue_encode (h : Decimal.AllDigits ds) :
    digitsValue (encode ds) = Decimal.natOf ds := by
  have hfold : ∀ n, ds.foldl (fun n c => n * 10 + ((UInt8.ofNat c.toNat).toNat - 0x30)) n =
      ds.foldl (fun n c => 10 * n + (c.toNat - '0'.toNat)) n := by
    induction ds with
    | nil => exact fun _ => rfl
    | cons d ds ih =>
      intro n
      have hd := Char.isDigit_iff_toNat.1 (h d (List.mem_cons_self ..))
      have hoctet : (UInt8.ofNat d.toNat).toNat = d.toNat := by
        simp at hd ⊢
        omega
      rw [List.foldl_cons, List.foldl_cons, hoctet, Nat.mul_comm n 10]
      exact ih (fun c hc => h c (List.mem_cons_of_mem _ hc)) _
  rw [encode_digits h, digitsValue, List.foldl_map]
  exact hfold 0

/-! ## Significands -/

theorem length_encode_digits (h : Decimal.AllDigits ds) : (encode ds).length = ds.length := by
  rw [encode_digits h, List.length_map]

/-- A digit stands before the others. -/
theorem natOf_cons (d : Char) (ds : List Char) :
    Decimal.natOf (d :: ds) = (d.toNat - 48) * 10 ^ ds.length + Decimal.natOf ds := by
  have hone : Decimal.natOf [d] = d.toNat - 48 := by simp [Decimal.natOf, Nat.ofDigitChars]
  rw [← List.singleton_append, Decimal.natOf_append, hone, mul_comm]

/-- **Digits are pushed** as long as 64 bits hold them. -/
theorem pushDigits_encode (h : Decimal.AllDigits ds) {n : Nat}
    (hfits : n * 10 ^ ds.length + Decimal.natOf ds < Width.natBound64) :
    pushDigits n (encode ds) = (n * 10 ^ ds.length + Decimal.natOf ds, []) := by
  induction ds generalizing n with
  | nil => simp [encode, pushDigits, Decimal.natOf, Nat.ofDigitChars]
  | cons d ds ih =>
    have hcode := Char.isDigit_iff_toNat.1 (h d (List.mem_cons_self ..))
    simp only [Char.reduceToNat] at hcode
    have hoctet : (UInt8.ofNat d.toNat).toNat = d.toNat := by
      simp
      omega
    have hsum : n * 10 ^ (d :: ds).length + Decimal.natOf (d :: ds) =
        (n * 10 + (d.toNat - 48)) * 10 ^ ds.length + Decimal.natOf ds := by
      rw [natOf_cons, List.length_cons, pow_succ]
      ring
    rw [hsum] at hfits ⊢
    have hnext : n * 10 + (d.toNat - 48) < Width.natBound64 :=
      (Nat.le_mul_of_pos_right _ (Nat.pow_pos (by decide))).trans_lt
        ((Nat.le_add_right ..).trans_lt hfits)
    rw [encode_cons_ascii (by omega), pushDigits]
    simp only [hoctet]
    rw [if_pos hnext]
    exact ih (fun c hc => h c (List.mem_cons_of_mem _ hc)) hfits

theorem wholeDigits_encode (h : Decimal.AllDigits ds)
    (hfits : Decimal.natOf ds < Width.natBound64) :
    wholeDigits (encode ds) = ⟨Decimal.natOf ds, 0⟩ := by
  rw [wholeDigits, pushDigits_encode h (by simpa using hfits)]
  simp

theorem withDecimals_encode {whole : List Char} (h : Decimal.AllDigits ds)
    (hfits : Decimal.natOf (whole ++ ds) < Width.natBound64) :
    withDecimals ⟨Decimal.natOf whole, 0⟩ (encode ds) =
      ⟨Decimal.natOf (whole ++ ds), -(ds.length : ℤ)⟩ := by
  rw [Decimal.natOf_append, mul_comm] at hfits ⊢
  rw [withDecimals, pushDigits_encode h hfits, length_encode_digits h]
  simp

/-! ## Numbers -/

theorem Closes.not_digit (h : Closes xs) : ∀ c ∈ xs.head?, c.isDigit = false := by
  cases xs with
  | nil => simp
  | cons c cs =>
    rintro _ ⟨⟩
    rcases h.eq_or with rfl | rfl | rfl <;> rfl

/-- A whole number is read to its last digit. -/
theorem scanNumber_whole (h : Decimal.IsWhole ds) (hx : ∀ c ∈ xs.head?, c.isDigit = false) :
    scanNumber negative (encode (ds ++ xs)) =
      scanFraction negative (wholeDigits (encode ds)) (encode xs) := by
  obtain ⟨d, ds, rfl⟩ := List.exists_cons_of_ne_nil h.ne_nil
  have hd : d.isDigit = true := h.digits d (List.mem_cons_self ..)
  have hds : Decimal.AllDigits ds := fun c hc => h.digits c (List.mem_cons_of_mem _ hc)
  have hcode := Char.isDigit_iff_toNat.1 hd
  simp only [Char.reduceToNat] at hcode
  have hoctet : (UInt8.ofNat d.toNat).toNat = d.toNat := by
    simp
    omega
  have hone : ∀ cs, encode (d :: cs) = UInt8.ofNat d.toNat :: encode cs := fun cs =>
    encode_cons_ascii (by omega)
  rw [List.cons_append, hone, hone, scanNumber]
  by_cases hzero : d = '0'
  · -- a zero stands alone
    subst hzero
    obtain rfl : ds = [] := (List.cons.inj (h.leading rfl)).2
    have hhead := isDigit_head hx
    rw [if_pos (by decide), List.nil_append]
    cases hxs : (encode xs).head? with
    | none => simp
    | some b => simp [hhead b hxs]
  · have hne : UInt8.ofNat d.toNat ≠ 0x30 := by
      intro heq
      rw [heq] at hoctet
      exact hzero (Char.toNat_inj.1 hoctet.symm)
    obtain ⟨htake, hdrop⟩ := span_digits hds hx
    rw [if_neg hne, if_pos (isDigit_iff.2 (by omega)), htake, hdrop]

/-- It has no fraction where the mark behind an item follows. -/
theorem scanFraction_closes {x : Decimal.Scientific} (h : Closes xs) :
    scanFraction negative x (encode xs) = ⟨wholeNumber negative x, some (encode xs)⟩ := by
  cases xs with
  | nil => rfl
  | cons c cs => rcases h.eq_or with rfl | rfl | rfl <;> rfl

/-- **A whole number** is read as it was written. -/
theorem scanNumber_toDigits {n : Nat} (hn : n < Width.natBound64) (h : Closes xs) :
    scanNumber negative (encode (Nat.toDigits 10 n ++ xs)) =
      ⟨wholeNumber negative ⟨n, 0⟩, some (encode xs)⟩ := by
  have hnat : Decimal.natOf (Nat.toDigits 10 n) = n := Decimal.natOf_toDigits n
  rw [scanNumber_whole (Decimal.isWhole_toDigits n) h.not_digit, scanFraction_closes h,
    wholeDigits_encode (Decimal.allDigits_toDigits n) (by rwa [hnat]), hnat]

theorem isEmpty_encode (h : cs ≠ []) : (encode cs).isEmpty = false := by
  have := length_le_encode cs
  have := List.length_pos_iff.2 h
  rw [List.isEmpty_eq_false_iff, ← List.length_pos_iff]
  omega

/-- An exponent is read as it was written. -/
theorem scanExponent_toDigits {e : ℤ} {x : Decimal.Scientific} (h : Closes xs) :
    scanExponent negative x
        (encode (Decimal.signOf e :: (Nat.toDigits 10 e.natAbs ++ xs))) =
      ⟨realNumber negative ⟨x.digits, x.exponent + e⟩, some (encode xs)⟩ := by
  obtain ⟨htake, hdrop⟩ := span_digits (Decimal.allDigits_toDigits e.natAbs) h.not_digit
  have hne := isEmpty_encode (Nat.toDigits_ne_nil (n := e.natAbs) (b := 10))
  have hvalue : digitsValue (encode (Nat.toDigits 10 e.natAbs)) = e.natAbs := by
    rw [digitsValue_encode (Decimal.allDigits_toDigits _), Decimal.natOf_toDigits]
  unfold Decimal.signOf
  split
  · have hsign : ∀ cs, encode ('-' :: cs) = 0x2D :: encode cs := fun _ => rfl
    simp only [hsign, scanExponent, List.head?_cons, true_or, if_true, List.drop_one,
      List.tail_cons, htake, hdrop, hne, hvalue]
    rw [if_neg (by decide), show -(e.natAbs : ℤ) = e by omega]
  · have hsign : ∀ cs, encode ('+' :: cs) = 0x2B :: encode cs := fun _ => rfl
    have hplus : some (0x2B : UInt8) ≠ some 0x2D := by decide
    simp only [hsign, scanExponent, List.head?_cons, or_true, if_true, List.drop_one,
      List.tail_cons, htake, hdrop, hne, hvalue, hplus, if_false]
    rw [if_neg (by decide), show (e.natAbs : ℤ) = e by omega]

/-- A fraction is read to the mark behind the number, -/
theorem scanFraction_point {x : Decimal.Scientific} (hds : Decimal.AllDigits ds) (hne : ds ≠ [])
    (h : Closes xs) : scanFraction negative x (encode ('.' :: (ds ++ xs))) =
      ⟨realNumber negative (withDecimals x (encode ds)), some (encode xs)⟩ := by
  have hpoint : ∀ cs, encode ('.' :: cs) = 0x2E :: encode cs := fun _ => rfl
  have hmark : ((encode xs).head?.map isExponentMark).getD false = false := by
    cases xs with
    | nil => rfl
    | cons c cs => rcases h.eq_or with rfl | rfl | rfl <;> rfl
  obtain ⟨htake, hdrop⟩ := span_digits hds h.not_digit
  simp only [hpoint, scanFraction, if_true, htake, hdrop, isEmpty_encode hne, hmark]
  rw [if_neg (by decide), if_neg (by decide)]

/-- or to its exponent. -/
theorem scanFraction_exponent {x : Decimal.Scientific} (hds : Decimal.AllDigits ds)
    (hne : ds ≠ []) : scanFraction negative x (encode ('.' :: (ds ++ 'e' :: xs))) =
      scanExponent negative (withDecimals x (encode ds)) (encode xs) := by
  have hpoint : ∀ cs, encode ('.' :: cs) = 0x2E :: encode cs := fun _ => rfl
  have hmark : encode ('e' :: xs) = 0x65 :: encode xs := rfl
  obtain ⟨htake, hdrop⟩ := @span_digits ds ('e' :: xs) hds (by simp)
  simp only [hpoint, scanFraction, if_true, htake, hdrop, isEmpty_encode hne]
  rw [if_neg (by decide), hmark, List.head?_cons, List.drop_one, List.tail_cons,
    if_pos (by decide)]

/-- **A decimal** is read as it was written, if 64 bits hold its digits. -/
theorem scanNumber_written {t : List Char} {x : Decimal.Scientific} (ht : Decimal.Written t x)
    (hx : x.digits < Width.natBound64) (h : Closes xs) :
    scanNumber negative (encode (t ++ xs)) = ⟨realNumber negative x, some (encode xs)⟩ := by
  have hfirst : ∀ {whole decimals : List Char},
      Decimal.natOf (whole ++ decimals) < Width.natBound64 →
        Decimal.natOf whole < Width.natBound64 := by
    intro whole decimals hlt
    rw [Decimal.natOf_append] at hlt
    exact (Nat.le_mul_of_pos_left _ (Nat.pow_pos (by decide))).trans_lt
      ((Nat.le_add_right ..).trans_lt hlt)
  cases ht with
  | @positional whole decimals hwhole hne hdecimals =>
    rw [List.append_assoc, List.cons_append, scanNumber_whole hwhole (by simp),
      scanFraction_point hdecimals hne h, wholeDigits_encode hwhole.digits (hfirst hx),
      withDecimals_encode hdecimals hx]
  | @scientific digits e hdigits =>
    obtain ⟨d, ds, rfl⟩ := List.exists_cons_of_ne_nil hdigits.ne_nil
    cases ds with
    | nil =>
      have hmark : ∀ cs, encode ('e' :: cs) = 0x65 :: encode cs := fun _ => rfl
      have hsplit : Decimal.mantissa [d] ++
          'e' :: Decimal.signOf e :: Nat.toDigits 10 e.natAbs ++ xs =
          [d] ++ 'e' :: Decimal.signOf e :: (Nat.toDigits 10 e.natAbs ++ xs) := by
        simp [Decimal.mantissa]
      rw [hsplit, scanNumber_whole hdigits (by simp), hmark, scanFraction, if_neg (by decide),
        if_pos (by decide), wholeDigits_encode hdigits.digits hx, scanExponent_toDigits h]
      simp
    | cons d' ds =>
      have hwhole : Decimal.IsWhole [d] :=
        ⟨fun c hc => hdigits.digits c (by simp_all), by simp, by simp⟩
      have hds : Decimal.AllDigits (d' :: ds) :=
        fun c hc => hdigits.digits c (List.mem_cons_of_mem _ hc)
      have hsplit : Decimal.mantissa (d :: d' :: ds) ++
          'e' :: Decimal.signOf e :: Nat.toDigits 10 e.natAbs ++ xs =
          [d] ++ '.' :: ((d' :: ds) ++
            'e' :: Decimal.signOf e :: (Nat.toDigits 10 e.natAbs ++ xs)) := by
        simp [Decimal.mantissa]
      have hexponent : -((d' :: ds).length : ℤ) + e = e + 1 - ((d :: d' :: ds).length : ℤ) := by
        simp only [List.length_cons]
        push_cast
        ring
      have hall : Decimal.natOf ([d] ++ (d' :: ds)) < Width.natBound64 := hx
      rw [hsplit, scanNumber_whole hwhole (by simp), scanFraction_exponent hds (by simp),
        wholeDigits_encode hwhole.digits (hfirst hall), withDecimals_encode hds hall,
        scanExponent_toDigits h, hexponent]
      rfl

/-! ## What is read of a number -/

/-- **What is read of the text of a number**: an integer is the same, and of a real number
the reader makes what it makes of the decimal that is written for it. -/
def Number.reread : Number → Number
  | .int i => .int i
  | .real x =>
    let d := Decimal.printed x.magnitudeBits
    .real ((Binary64.ofParts? x.isNegative d.digits d.exponent).getD x)

/-- The digits of the text fit in 64 bits. -/
theorem digits_printed_lt (bits : Nat) : (Decimal.printed bits).digits < Width.natBound64 :=
  (Decimal.printed_digits_le bits).trans_lt (by decide)

/-- What is written for a finite number is read as it is reread. -/
theorem realNumber_printed {x : Binary64} (hx : x.isFinite = true) :
    realNumber x.isNegative (Decimal.printed x.magnitudeBits) =
      .number (Number.reread (.real x)) := by
  obtain ⟨y, hy⟩ := @Decimal.exists_ofParts?_printed _ x.isNegative (Binary64.isFinite_iff.1 hx)
  simp only [realNumber, Number.reread, hy, Option.getD_some]

/-- **A real number with few digits** is reread as it is. -/
theorem Number.reread_eq_self {x : Binary64} (hx : x.isFinite = true)
    (hdigits : (Decimal.printed x.magnitudeBits).digits ≤ 2 * Binary64.exponentBit)
    (hlow : -22 ≤ (Decimal.printed x.magnitudeBits).exponent)
    (hhigh : (Decimal.printed x.magnitudeBits).exponent ≤ 22) :
    Number.reread (.real x) = .real x := by
  simp only [reread, Decimal.ofParts?_printed_eq_self hx hdigits hlow hhigh, Option.getD_some]

/-- What a number is as it is kept: an integer of 64 bits, or finite. -/
def Number.IsKept : Number → Prop
  | .int i => fitsInt i = true
  | .real x => x.isFinite = true

theorem Number.IsKept.isFinite {n : Number} (h : n.IsKept) : n.IsFinite := by
  cases n with
  | int i => trivial
  | real x => exact h

/-- What is reread is kept. -/
theorem Number.IsKept.reread {n : Number} (h : n.IsKept) : n.reread.IsKept := by
  cases n with
  | int i => exact h
  | real x =>
    obtain ⟨y, hy⟩ := @Decimal.exists_ofParts?_printed _ x.isNegative (Binary64.isFinite_iff.1 h)
    have hfinite := Binary64.isFinite_of_ofParts? (digits_printed_lt _) hy
    simp only [Number.reread, hy, Option.getD_some]
    exact hfinite

/-- **A number** is read as it is reread, behind its sign. -/
theorem scanNumber_text {n : Number} (hn : n.IsKept) (h : Closes xs) :
    ∃ (negative : Bool) (t : List Char),
      n.text.toList = (if negative then ['-'] else []) ++ t ∧
        (∃ c cs, t = c :: cs ∧ c.isDigit = true) ∧
          scanNumber negative (encode (t ++ xs)) = ⟨.number n.reread, some (encode xs)⟩ := by
  cases n with
  | int i =>
    refine ⟨decide (i < 0), Nat.toDigits 10 i.natAbs, ?_, Decimal.head_toDigits _, ?_⟩
    · rw [Number.text, toList_int]
      by_cases hi : i < 0 <;> simp [hi]
    · have hvalue : (if decide (i < 0) then -(i.natAbs : ℤ) else i.natAbs) = i := by
        by_cases hi : i < 0
        · rw [if_pos (decide_eq_true hi)]
          omega
        · rw [if_neg (by simpa using hi)]
          omega
      have hrange : -(Width.intBound64 : ℤ) ≤ i ∧ i < Width.natBound64 := of_decide_eq_true hn
      have habs : i.natAbs < Width.natBound64 := by
        unfold Width.intBound64 Width.natBound64 at *
        omega
      rw [scanNumber_toDigits habs h, wholeNumber]
      simp only [hvalue]
      rw [if_pos]
      · rfl
      refine ⟨trivial, hn, ?_⟩
      by_cases hi : i < 0 <;> simp [hi]
      omega
  | real x =>
    obtain ⟨t, ht, hwritten⟩ := Decimal.written_write hn
    refine ⟨x.isNegative, t, ht, hwritten.head, ?_⟩
    rw [scanNumber_written hwritten (digits_printed_lt _) h, realNumber_printed hn]

end Json

end Conductor
