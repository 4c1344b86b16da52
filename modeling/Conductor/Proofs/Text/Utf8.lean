import Conductor.Text.Utf8
import Mathlib.Data.String.Basic
import Mathlib.Tactic.IntervalCases
/-!
# Text — UTF-8 is read as it is written

The octets of a text decode to its characters, without an error (`decode_encode`), so
both readers give the text back (`toString?_ofString`, `lossy_ofString`). An octet below
128 is a character by itself (`eq_singleton_of_mem`), which is what makes it safe to look
for a character of ASCII among octets. And texts have one order, whether it is read from
their characters or from their octets (`ofString_lt_iff`).
-/

namespace Conductor

namespace Text

namespace Utf8

variable {c d : Char} {cs ds : List Char} {b : UInt8} {bs bs' : List UInt8} {done : List Item}
  {p : Partial} {m n v : Nat}

/-! ## The octets of characters -/

@[simp] theorem encode_nil : encode [] = [] := rfl

theorem encode_cons : encode (c :: cs) = String.utf8EncodeChar c ++ encode cs := rfl

@[simp] theorem encode_append : encode (cs ++ ds) = encode cs ++ encode ds := List.flatMap_append

/-- A character of ASCII is one octet. -/
theorem encodeChar_ascii (h : c.toNat < 128) :
    String.utf8EncodeChar c = [UInt8.ofNat c.toNat] := by
  unfold String.utf8EncodeChar
  exact if_pos (Nat.le_of_lt_succ h)

theorem encode_cons_ascii (h : c.toNat < 128) :
    encode (c :: cs) = UInt8.ofNat c.toNat :: encode cs := by
  rw [encode_cons, encodeChar_ascii h, List.singleton_append]

/-- **An octet below 128** is a character by itself. -/
theorem eq_singleton_of_mem (h : b ∈ String.utf8EncodeChar c) (hb : b.toNat < 128) :
    String.utf8EncodeChar c = [b] ∧ c.toNat = b.toNat := by
  by_cases hc : c.toNat < 128
  · rw [encodeChar_ascii hc] at h ⊢
    obtain rfl := List.mem_singleton.1 h
    exact ⟨rfl, by simp; omega⟩
  · -- all octets of a longer sequence have the top bit
    exfalso
    have hlen : ¬ c.val.toNat ≤ 127 := fun hle => hc (Nat.lt_succ_of_le hle)
    unfold String.utf8EncodeChar at h
    rw [if_neg hlen] at h
    split at h
    · simp only [List.mem_cons, List.not_mem_nil, or_false] at h
      rcases h with rfl | rfl <;> simp at hb <;> omega
    · split at h
      · simp only [List.mem_cons, List.not_mem_nil, or_false] at h
        rcases h with rfl | rfl | rfl <;> simp at hb <;> omega
      · simp only [List.mem_cons, List.not_mem_nil, or_false] at h
        rcases h with rfl | rfl | rfl | rfl <;> simp at hb <;> omega

/-- The octets of a text are no fewer than its characters. -/
theorem length_le_encode (cs : List Char) : cs.length ≤ (encode cs).length := by
  induction cs with
  | nil => exact Nat.zero_le _
  | cons c cs ih =>
    have := Char.utf8Size_pos c
    rw [encode_cons, List.length_cons, List.length_append, String.length_utf8EncodeChar]
    omega

/-! ## Decoding -/

/-- The machine reads the first octet of a character. -/
theorem start_one (h : n < 128) : start (UInt8.ofNat n) = ([some (Char.ofNat n)], none) := by
  have hnat : (UInt8.ofNat n).toNat = n := UInt8.toNat_ofNat_of_lt' (by simp [UInt8.size]; omega)
  have hb : UInt8.ofNat n < 0x80 := by
    rw [UInt8.lt_iff_toNat_lt, hnat]
    exact h
  rw [start, if_pos hb, hnat]

theorem start_two (hlow : 2 ≤ n) (h : n < 32) :
    start (UInt8.ofNat (n + 192)) = ([], some ⟨n, 1, 0x80, 0xBF⟩) := by
  interval_cases n <;> rfl

theorem start_three (h : n < 16) : start (UInt8.ofNat (n + 224)) =
    ([], some ⟨n, 2, if n = 0 then 0xA0 else 0x80, if n = 13 then 0x9F else 0xBF⟩) := by
  interval_cases n <;> rfl

theorem start_four (h : n < 5) : start (UInt8.ofNat (n + 240)) =
    ([], some ⟨n, 3, if n = 0 then 0x90 else 0x80, if n = 4 then 0x8F else 0xBF⟩) := by
  interval_cases n <;> rfl

/-- And it reads one that follows. -/
theorem step_tail (hn : n < 64) (hlow : p.low.toNat ≤ n + 128) (hhigh : n + 128 ≤ p.high.toNat) :
    step (some p) (UInt8.ofNat (n + 128)) =
      if p.missing = 1 then ([some (Char.ofNat (p.bits * 64 + n))], none)
      else ([], some ⟨p.bits * 64 + n, p.missing - 1, 0x80, 0xBF⟩) := by
  have hnat : (UInt8.ofNat (n + 128)).toNat = n + 128 := by
    simp
    omega
  have hrange : p.low ≤ UInt8.ofNat (n + 128) ∧ UInt8.ofNat (n + 128) ≤ p.high := by
    rw [UInt8.le_iff_toNat_le, UInt8.le_iff_toNat_le, hnat]
    exact ⟨hlow, hhigh⟩
  have hbits : (n + 128) % 64 = n := by omega
  simp only [step, if_pos hrange, hnat, hbits]

/-- An octet that is not the last of its character leaves it open, -/
theorem decodeFrom_tail (hn : n < 64) (hlow : p.low.toNat ≤ n + 128)
    (hhigh : n + 128 ≤ p.high.toNat) (hmissing : p.missing ≠ 1) :
    decodeFrom (some p) done (UInt8.ofNat (n + 128) :: bs) =
      decodeFrom (some ⟨p.bits * 64 + n, p.missing - 1, 0x80, 0xBF⟩) done bs := by
  rw [decodeFrom, step_tail hn hlow hhigh, if_neg hmissing]
  rfl

/-- and the last one completes it. -/
theorem decodeFrom_last (hn : n < 64) (hlow : p.low.toNat ≤ n + 128)
    (hhigh : n + 128 ≤ p.high.toNat) (hmissing : p.missing = 1) :
    decodeFrom (some p) done (UInt8.ofNat (n + 128) :: bs) =
      decodeFrom none (some (Char.ofNat (p.bits * 64 + n)) :: done) bs := by
  rw [decodeFrom, step_tail hn hlow hhigh, if_pos hmissing]
  rfl

/-- A character of two octets. -/
theorem decodeFrom_two (hlow : 0x80 ≤ v) (h : v < 0x800) :
    decodeFrom none done
        (UInt8.ofNat (v / 64 % 32 + 192) :: UInt8.ofNat (v % 64 + 128) :: bs) =
      decodeFrom none (some (Char.ofNat v) :: done) bs := by
  rw [decodeFrom, step, start_two (by omega) (by omega)]
  dsimp only [List.reverseAux]
  rw [decodeFrom_last (by omega) (by simp) (by simp; omega) rfl]
  dsimp only
  rw [show v / 64 % 32 * 64 + v % 64 = v by omega]

/-- A character of three; the second octet leaves out what is shorter and the surrogates. -/
theorem decodeFrom_three (hlow : 0x800 ≤ v) (h : v < 0xD800 ∨ 0xDFFF < v ∧ v < 0x10000) :
    decodeFrom none done (UInt8.ofNat (v / 4096 % 16 + 224) ::
        UInt8.ofNat (v / 64 % 64 + 128) :: UInt8.ofNat (v % 64 + 128) :: bs) =
      decodeFrom none (some (Char.ofNat v) :: done) bs := by
  have hfirst : (if v / 4096 % 16 = 0 then 0xA0 else 0x80 : UInt8).toNat ≤ v / 64 % 64 + 128 := by
    split
    · simp
      omega
    · simp
  have hlast : v / 64 % 64 + 128 ≤ (if v / 4096 % 16 = 13 then 0x9F else 0xBF : UInt8).toNat := by
    split <;> (simp; omega)
  rw [decodeFrom, step, start_three (by omega)]
  dsimp only [List.reverseAux]
  rw [decodeFrom_tail (by omega) hfirst hlast (by simp),
    decodeFrom_last (by omega) (by simp) (by simp; omega) rfl]
  dsimp only
  rw [show (v / 4096 % 16 * 64 + v / 64 % 64) * 64 + v % 64 = v by omega]

/-- A character of four; the second octet leaves out what is shorter and what is too large. -/
theorem decodeFrom_four (hlow : 0x10000 ≤ v) (h : v < 0x110000) :
    decodeFrom none done (UInt8.ofNat (v / 262144 % 8 + 240) ::
        UInt8.ofNat (v / 4096 % 64 + 128) :: UInt8.ofNat (v / 64 % 64 + 128) ::
          UInt8.ofNat (v % 64 + 128) :: bs) =
      decodeFrom none (some (Char.ofNat v) :: done) bs := by
  have hfirst : (if v / 262144 % 8 = 0 then 0x90 else 0x80 : UInt8).toNat ≤
      v / 4096 % 64 + 128 := by
    split
    · simp
      omega
    · simp
  have hlast : v / 4096 % 64 + 128 ≤
      (if v / 262144 % 8 = 4 then 0x8F else 0xBF : UInt8).toNat := by
    split <;> (simp; omega)
  rw [decodeFrom, step, start_four (by omega)]
  dsimp only [List.reverseAux]
  rw [decodeFrom_tail (by omega) hfirst hlast (by simp),
    decodeFrom_tail (by omega) (by simp) (by simp; omega) (by simp),
    decodeFrom_last (by omega) (by simp) (by simp; omega) rfl]
  dsimp only
  rw [show ((v / 262144 % 8 * 64 + v / 4096 % 64) * 64 + v / 64 % 64) * 64 + v % 64 = v by
    omega]

/-- **The octets of a character** decode to it. -/
theorem decodeFrom_encodeChar :
    decodeFrom none done (String.utf8EncodeChar c ++ bs) = decodeFrom none (some c :: done) bs := by
  have hvalid : c.val.toNat < 0xD800 ∨ (0xDFFF < c.val.toNat ∧ c.val.toNat < 0x110000) := c.valid
  have hc : Char.ofNat c.val.toNat = c := Char.ofNat_toNat c
  generalize hv : c.val.toNat = v at hvalid hc
  unfold String.utf8EncodeChar
  dsimp only
  rw [hv]
  obtain rfl := hc
  split
  · rw [List.singleton_append, decodeFrom, step, start_one (by omega)]
    rfl
  · split
    · exact decodeFrom_two (by omega) (by omega)
    · split
      · exact decodeFrom_three (by omega) (by omega)
      · exact decodeFrom_four (by omega) (by omega)

/-- **The octets of a text decode to its characters.** -/
theorem decode_encode (cs : List Char) : decode (encode cs) = cs.map some := by
  have hfrom : ∀ done, decodeFrom none done (encode cs) = done.reverse ++ cs.map some := by
    induction cs with
    | nil =>
      intro done
      simp [decodeFrom]
    | cons c cs ih =>
      intro done
      rw [encode_cons, decodeFrom_encodeChar, ih]
      simp
  exact hfrom []

/-- So the octets tell the characters. -/
theorem encode_injective : Function.Injective encode := fun cs ds h => by
  have hdecoded : cs.map some = ds.map some := by rw [← decode_encode, h, decode_encode]
  exact List.map_inj_right (fun _ _ => Option.some.inj) |>.1 hdecoded

/-- A text is read from its octets. -/
theorem toString?_ofString (s : String) : toString? (ofString s) = some s := by
  unfold toString? ofString
  rw [decode_encode]
  simp

/-- Nothing in it has to be replaced. -/
theorem lossy_ofString (s : String) : lossy (ofString s) = s := by
  unfold lossy ofString
  rw [decode_encode]
  simp [Function.comp_def]

/-! ## The order of texts -/

/-- The octets of a character, by how many there are. -/
theorem encodeChar_cases (c : Char) :
    (c.toNat < 0x80 ∧ String.utf8EncodeChar c = [UInt8.ofNat c.toNat]) ∨
    (0x80 ≤ c.toNat ∧ c.toNat < 0x800 ∧ String.utf8EncodeChar c =
      [UInt8.ofNat (c.toNat / 64 + 192), UInt8.ofNat (c.toNat % 64 + 128)]) ∨
    (0x800 ≤ c.toNat ∧ c.toNat < 0x10000 ∧ String.utf8EncodeChar c =
      [UInt8.ofNat (c.toNat / 64 / 64 + 224), UInt8.ofNat (c.toNat / 64 % 64 + 128),
        UInt8.ofNat (c.toNat % 64 + 128)]) ∨
    (0x10000 ≤ c.toNat ∧ c.toNat < 0x110000 ∧ String.utf8EncodeChar c =
      [UInt8.ofNat (c.toNat / 64 / 64 / 64 + 240), UInt8.ofNat (c.toNat / 64 / 64 % 64 + 128),
        UInt8.ofNat (c.toNat / 64 % 64 + 128), UInt8.ofNat (c.toNat % 64 + 128)]) := by
  have hvalid : c.toNat < 0xD800 ∨ (0xDFFF < c.toNat ∧ c.toNat < 0x110000) := c.valid
  unfold String.utf8EncodeChar
  dsimp only
  rw [show c.val.toNat = c.toNat from rfl]
  split
  · exact .inl ⟨by omega, rfl⟩
  · split
    · refine .inr (.inl ⟨by omega, by omega, ?_⟩)
      rw [show c.toNat / 64 % 32 = c.toNat / 64 by omega]
    · split
      · refine .inr (.inr (.inl ⟨by omega, by omega, ?_⟩))
        rw [show c.toNat / 4096 % 16 = c.toNat / 64 / 64 by omega]
      · refine .inr (.inr (.inr ⟨by omega, by omega, ?_⟩))
        rw [show c.toNat / 262144 % 8 = c.toNat / 64 / 64 / 64 by omega,
          show c.toNat / 4096 % 64 = c.toNat / 64 / 64 % 64 by omega]

theorem cons_ofNat_lt_iff (hm : m < 256) (hn : n < 256) :
    UInt8.ofNat m :: bs < UInt8.ofNat n :: bs' ↔ m < n ∨ m = n ∧ bs < bs' := by
  have hnat : ∀ k < 256, (UInt8.ofNat k).toNat = k := fun k hk => UInt8.toNat_ofNat_of_lt' hk
  rw [List.cons_lt_cons_iff, UInt8.lt_iff_toNat_lt, ← UInt8.toNat_inj, hnat m hm, hnat n hn]

/-- **The octets of a smaller character** come first, whatever follows. -/
theorem encodeChar_append_lt (h : c < d) :
    String.utf8EncodeChar c ++ bs < String.utf8EncodeChar d ++ bs' := by
  have hlt : c.toNat < d.toNat := h
  -- the first octet tells how many there are; if there are as many, they are digits
  rcases encodeChar_cases c with
    ⟨hc, henc⟩ | ⟨hc, hc', henc⟩ | ⟨hc, hc', henc⟩ | ⟨hc, hc', henc⟩ <;>
  rcases encodeChar_cases d with
    ⟨hd, henc'⟩ | ⟨hd, hd', henc'⟩ | ⟨hd, hd', henc'⟩ | ⟨hd, hd', henc'⟩ <;>
  · rw [henc, henc']
    simp (disch := omega) only [List.cons_append, cons_ofNat_lt_iff]
    omega

theorem encode_lt (h : cs < ds) : encode cs < encode ds := by
  induction cs generalizing ds with
  | nil =>
    have hds : ds ≠ [] := by
      rintro rfl
      exact absurd h (List.not_lt_nil _)
    have hpos : 0 < (encode ds).length :=
      lt_of_lt_of_le (List.length_pos_of_ne_nil hds) (length_le_encode ds)
    obtain ⟨x, xs, hxs⟩ := List.exists_cons_of_ne_nil (List.ne_nil_of_length_pos hpos)
    rw [encode_nil, hxs]
    exact List.nil_lt_cons x xs
  | cons c cs ih =>
    cases ds with
    | nil => exact absurd h (List.not_lt_nil _)
    | cons d ds =>
      rw [encode_cons, encode_cons]
      rcases List.cons_lt_cons_iff.1 h with hlt | ⟨rfl, hlt⟩
      · exact encodeChar_append_lt hlt
      · exact List.append_left_lt (ih hlt)

/-- **Texts are in the order of their octets.** -/
theorem ofString_lt_iff {s t : String} : ofString s < ofString t ↔ s < t := by
  rw [String.lt_iff_toList_lt]
  constructor
  · intro h
    rcases lt_trichotomy s.toList t.toList with hlt | heq | hgt
    · exact hlt
    · rw [ofString, ofString, heq] at h
      exact absurd h (List.lt_irrefl _)
    · exact absurd (encode_lt hgt) (List.lt_asymm h)
  · intro h
    exact encode_lt h

end Utf8

end Text

end Conductor
