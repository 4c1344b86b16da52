import Conductor.Json.Basic
import Conductor.Proofs.Decimal.Written
/-!
# JSON — what the text of a value says

The text of a value tells which value it is, and where it ends
(`chars_append_inj`): a number ends before the first character that no number has,
and everything else closes itself. Only finite numbers have a text of their own;
a value is `IsFinite` when all of its numbers are, as those read from a document
are. The text is on one line (`printable_chars`): control characters are escaped.
-/

namespace Conductor

namespace Json

mutual

/-- All numbers of the value are finite. -/
def IsFinite : Json → Prop
  | .number (.real x) => x.isFinite = true
  | .array xs => ItemsFinite xs
  | .object ms => MembersFinite ms
  | _ => True

/-- All numbers of the items are finite. -/
def ItemsFinite : List Json → Prop
  | [] => True
  | x :: xs => IsFinite x ∧ ItemsFinite xs

/-- All numbers of the members are finite. -/
def MembersFinite : List (String × Json) → Prop
  | [] => True
  | (_, v) :: ms => IsFinite v ∧ MembersFinite ms

end

/-! ## Strings -/

/-- The characters that are escaped. -/
def specials : List Char := (List.range 32).map Char.ofNat ++ ['"', '\\']

theorem mem_specials {c : Char} : c ∈ specials ↔ c.toNat < 32 ∨ c.toNat = 34 ∨ c.toNat = 92 := by
  constructor
  · have hall : specials.all (fun c => c.toNat < 32 ∨ c.toNat = 34 ∨ c.toNat = 92) = true := by
      decide +kernel
    intro h
    simpa using List.all_eq_true.1 hall c h
  · intro h
    rw [← Char.ofNat_toNat c, specials, List.mem_append]
    rcases h with hlow | hmark | hmark
    · exact .inl (List.mem_map.2 ⟨_, List.mem_range.2 hlow, rfl⟩)
    · rw [hmark]
      exact .inr (by decide)
    · rw [hmark]
      exact .inr (by decide)

/-- An escaped character stands behind a backslash. -/
theorem escapeChar_special : ∀ c ∈ specials, (escapeChar c).head? = some '\\' := by
  have hall : specials.all (fun c => (escapeChar c).head? = some '\\') = true := by
    decide +kernel
  simpa only [List.all_eq_true, decide_eq_true_eq] using hall

/-- No escape of a character is the beginning of that of another. -/
theorem escapeChar_special_injective :
    ∀ c ∈ specials, ∀ c' ∈ specials, escapeChar c <+: escapeChar c' → c = c' := by
  have hall : specials.all (fun c => specials.all fun c' =>
      decide (escapeChar c <+: escapeChar c' → c = c')) = true := by
    decide +kernel
  simpa only [List.all_eq_true, decide_eq_true_eq] using hall

/-- Any other character stands for itself. -/
theorem escapeChar_other {c : Char} (h : c ∉ specials) : escapeChar c = [c] := by
  unfold escapeChar
  split
  case h_8 =>
    split
    · rename_i hlow
      refine absurd ?_ h
      rw [specials, List.mem_append, List.mem_map]
      exact .inl ⟨_, List.mem_range.2 hlow, Char.ofNat_toNat _⟩
    · rfl
  all_goals exact absurd (by decide +kernel) h

/-- An escape tells its character, whatever follows. -/
theorem escapeChar_append_inj {c c' : Char} {xs ys : List Char}
    (h : escapeChar c ++ xs = escapeChar c' ++ ys) : c = c' ∧ xs = ys := by
  have heq : c = c' := by
    by_cases hc : c ∈ specials <;> by_cases hc' : c' ∈ specials
    · -- of two escapes at the same place one begins the other
      rcases List.prefix_or_prefix_of_prefix (List.prefix_append _ xs)
        (h ▸ List.prefix_append _ ys) with hle | hle
      · exact escapeChar_special_injective c hc c' hc' hle
      · exact (escapeChar_special_injective c' hc' c hc hle).symm
    · -- a backslash does not stand for itself
      have hhead := congrArg List.head? h
      rw [List.head?_append, escapeChar_special c hc, escapeChar_other hc'] at hhead
      obtain rfl : '\\' = c' := by simpa using hhead
      exact absurd (by decide +kernel) hc'
    · have hhead := congrArg List.head? h
      rw [List.head?_append, List.head?_append, escapeChar_special c' hc', escapeChar_other hc]
        at hhead
      obtain rfl : c = '\\' := by simpa using hhead
      exact absurd (by decide +kernel) hc
    · rw [escapeChar_other hc, escapeChar_other hc'] at h
      exact (List.cons.inj h).1
  subst heq
  exact ⟨rfl, List.append_cancel_left h⟩

/-- The quotation mark is escaped. -/
theorem escapeChar_ne_quote {c : Char} {xs ys : List Char} : escapeChar c ++ xs ≠ '"' :: ys := by
  intro h
  by_cases hc : c ∈ specials
  · have hhead := congrArg List.head? h
    rw [List.head?_append, escapeChar_special c hc] at hhead
    cases hhead
  · rw [escapeChar_other hc] at h
    rw [(List.cons.inj h).1] at hc
    exact absurd (by decide +kernel) hc

/-- A string ends at its quotation mark. -/
theorem escaped_append_inj {cs cs' xs ys : List Char}
    (h : cs.flatMap escapeChar ++ '"' :: xs = cs'.flatMap escapeChar ++ '"' :: ys) :
    cs = cs' ∧ xs = ys := by
  induction cs generalizing cs' with
  | nil =>
    cases cs' with
    | nil => exact ⟨rfl, (List.cons.inj h).2⟩
    | cons c' cs' =>
      rw [List.flatMap_cons, List.append_assoc] at h
      exact absurd h.symm escapeChar_ne_quote
  | cons c cs ih =>
    cases cs' with
    | nil =>
      rw [List.flatMap_cons, List.append_assoc] at h
      exact absurd h escapeChar_ne_quote
    | cons c' cs' =>
      rw [List.flatMap_cons, List.flatMap_cons, List.append_assoc, List.append_assoc] at h
      obtain ⟨rfl, hrest⟩ := escapeChar_append_inj h
      obtain ⟨rfl, hxs⟩ := ih hrest
      exact ⟨rfl, hxs⟩

/-- **The text of a string** tells the string and where it ends. -/
theorem stringChars_append_inj {s s' : String} {xs ys : List Char}
    (h : stringChars s ++ xs = stringChars s' ++ ys) : s = s' ∧ xs = ys := by
  unfold stringChars at h
  rw [List.append_assoc, List.append_assoc] at h
  obtain ⟨hs, hxs⟩ := escaped_append_inj (List.cons.inj h).2
  exact ⟨String.toList_inj.1 hs, hxs⟩

/-! ## Numbers -/

/-- What follows is nothing that a number could go on with. -/
def Ends (xs : List Char) : Prop := ∀ c ∈ xs.head?, ¬ Decimal.IsNumberChar c

/-- A number ends where its characters do. -/
theorem number_append_inj {t t' xs ys : List Char} (ht : ∀ c ∈ t, Decimal.IsNumberChar c)
    (ht' : ∀ c ∈ t', Decimal.IsNumberChar c) (hx : Ends xs) (hy : Ends ys)
    (h : t ++ xs = t' ++ ys) : t = t' ∧ xs = ys := by
  have hlong : ∀ {t t' xs ys zs : List Char}, (∀ c ∈ t', Decimal.IsNumberChar c) → Ends xs →
      t' = t ++ zs → xs = zs ++ ys → zs = [] := by
    intro t t' xs ys zs ht' hx heq hxs
    cases zs with
    | nil => rfl
    | cons z zs => exact absurd (ht' z (by simp [heq])) (hx z (by simp [hxs]))
  -- of two numbers at the same place, neither goes on where the other has ended
  rcases List.append_eq_append_iff.1 h with ⟨zs, heq, hzs⟩ | ⟨zs, heq, hzs⟩
  · obtain rfl := hlong ht' hx heq hzs
    exact ⟨by simp [heq], by simpa using hzs⟩
  · obtain rfl := hlong ht hy heq hzs
    exact ⟨by simp [heq], by simpa using hzs.symm⟩

/-- The text of a whole number: digits, behind a minus sign if it is negative. -/
theorem toList_int (i : Int) :
    (toString i).toList = (if i < 0 then ['-'] else []) ++ Nat.toDigits 10 i.natAbs := by
  rw [Int.toString_eq_repr, Int.repr_eq_if]
  by_cases hi : i < 0
  · rw [if_pos hi, if_neg (by omega), String.toList_append, Nat.toList_repr,
      show (-i).toNat = i.natAbs by omega]
    rfl
  · rw [if_neg hi, if_pos (by omega), Nat.toList_repr, show i.toNat = i.natAbs by omega]
    rfl

/-- A number that is finite, if it is real. -/
def Number.IsFinite : Number → Prop
  | .int _ => True
  | .real x => x.isFinite = true

/-- What the text of a number is made of: a sign or none, and something that begins
with a digit. -/
theorem Number.text_eq {n : Number} (h : n.IsFinite) :
    ∃ (negative : Prop) (_ : Decidable negative) (t : List Char),
      n.text.toList = (if negative then ['-'] else []) ++ t ∧
        (∃ c cs, t = c :: cs ∧ c.isDigit = true) ∧ ∀ c ∈ t, Decimal.IsNumberChar c := by
  cases n with
  | int i =>
    refine ⟨i < 0, inferInstance, _, toList_int i, Decimal.head_toDigits _, fun c hc => ?_⟩
    exact .inl (Decimal.allDigits_toDigits _ c hc)
  | real x =>
    obtain ⟨t, ht, hwritten⟩ := Decimal.written_write h
    exact ⟨x.isNegative = true, inferInstance, t, ht, hwritten.head, hwritten.chars⟩

/-- The text of a number is written with the characters of numbers. -/
theorem Number.text_chars {n : Number} (h : n.IsFinite) :
    ∀ c ∈ n.text.toList, Decimal.IsNumberChar c := by
  obtain ⟨negative, _, t, ht, -, hchars⟩ := Number.text_eq h
  rw [ht]
  intro c hc
  rcases List.mem_append.1 hc with hc | hc
  · split at hc
    · rw [List.mem_singleton.1 hc]
      exact .inr (by simp)
    · cases hc
  · exact hchars c hc

/-- **The text of a number** tells which it is: a real number has a point or an exponent. -/
theorem Number.text_injective {n m : Number} (hn : n.IsFinite) (hm : m.IsFinite)
    (h : n.text = m.text) : n = m := by
  have hdiffer : ∀ {i : Int} {x : Binary64}, x.isFinite = true →
      (Number.int i).text ≠ (Number.real x).text := by
    intro i x hx heq
    obtain ⟨t, ht, hwritten⟩ := Decimal.written_write hx
    have hchars : ∀ c ∈ (toString i).toList, c.isDigit = true ∨ c = '-' := by
      intro c hc
      rw [toList_int] at hc
      rcases List.mem_append.1 hc with hc | hc
      · split at hc
        · exact .inr (List.mem_singleton.1 hc)
        · cases hc
      · exact .inl (Decimal.allDigits_toDigits _ c hc)
    have hmem : ∀ c ∈ t, c ∈ (toString i).toList := by
      intro c hc
      have htext : (toString i).toList = _ := (congrArg String.toList heq).trans ht
      rw [htext]
      exact List.mem_append_right _ hc
    rcases hwritten.mark with hmark | hmark
    · exact absurd (hchars _ (hmem _ hmark)) (by decide)
    · exact absurd (hchars _ (hmem _ hmark)) (by decide)
  cases n with
  | int i =>
    cases m with
    | int j =>
      have heq := congrArg String.toList h
      simp only [Number.text, toList_int] at heq
      obtain ⟨hsign, habs⟩ := Decimal.signed_inj (Decimal.head_toDigits _)
        (Decimal.head_toDigits _) heq
      have habs := Decimal.toDigits_injective habs
      congr 1
      omega
    | real y => exact absurd h (hdiffer hm)
  | real x =>
    cases m with
    | int j => exact absurd h.symm (hdiffer hn)
    | real y => exact congrArg Number.real (Decimal.write_json_injective hn hm h)

/-! ## Values -/

/-- What the first character of a text says of the value. -/
inductive Kind
  | null
  | yes
  | no
  | number
  | string
  | array
  | object
  deriving DecidableEq

/-- The kind of the values that begin with a character, if there are any. -/
def Kind.ofChar? (c : Char) : Option Kind :=
  if c.isDigit ∨ c = '-' then some .number
  else match c with
    | 'n' => some .null
    | 't' => some .yes
    | 'f' => some .no
    | '"' => some .string
    | '[' => some .array
    | '\x7b' => some .object
    | _ => none

/-- The kind of a value. -/
def kind : Json → Kind
  | .null => .null
  | .bool true => .yes
  | .bool false => .no
  | .number _ => .number
  | .string _ => .string
  | .array _ => .array
  | .object _ => .object

theorem number_isFinite {n : Number} (h : (number n).IsFinite) : n.IsFinite := by
  cases n with
  | int i => trivial
  | real x => simpa [IsFinite, Number.IsFinite] using h

/-- **The first character** of a text tells the kind of the value. -/
theorem chars_head {v : Json} (h : v.IsFinite) :
    ∃ c cs, v.chars = c :: cs ∧ Kind.ofChar? c = some v.kind := by
  cases v with
  | null => exact ⟨_, _, by rw [chars], rfl⟩
  | bool b => cases b <;> exact ⟨_, _, by rw [chars], rfl⟩
  | number n =>
    obtain ⟨negative, _, t, ht, ⟨c, cs, rfl, hc⟩, -⟩ := Number.text_eq (number_isFinite h)
    rw [chars, ht]
    split
    · exact ⟨_, _, rfl, rfl⟩
    · exact ⟨_, _, rfl, by simp [Kind.ofChar?, hc, kind]⟩
  | string s => exact ⟨_, _, by rw [chars, stringChars, List.cons_append], rfl⟩
  | array xs => cases xs <;> exact ⟨_, _, by rw [chars], rfl⟩
  | object ms =>
    cases ms with
    | nil => exact ⟨_, _, by rw [chars], rfl⟩
    | cons m ms => exact ⟨_, _, by rw [chars], rfl⟩

/-- Values whose texts begin alike are of one kind. -/
theorem kind_eq {v w : Json} {xs ys : List Char} (hv : v.IsFinite) (hw : w.IsFinite)
    (h : v.chars ++ xs = w.chars ++ ys) : w.kind = v.kind := by
  obtain ⟨c, cs, hcs, hc⟩ := chars_head hv
  obtain ⟨c', cs', hcs', hc'⟩ := chars_head hw
  rw [hcs, hcs'] at h
  rw [(List.cons.inj h).1, hc'] at hc
  exact Option.some.inj hc

/-- Behind a value in an array comes no character of a number. -/
theorem ends_itemsChars (xs : List Json) (r : List Char) : Ends (itemsChars xs ++ r) := by
  unfold Ends Decimal.IsNumberChar
  cases xs <;> simp [itemsChars]

/-- Nor behind one in an object. -/
theorem ends_membersChars (ms : List (String × Json)) (r : List Char) :
    Ends (membersChars ms ++ r) := by
  unfold Ends Decimal.IsNumberChar
  cases ms <;> simp [membersChars]

/-- No text begins with a closing bracket. -/
theorem chars_ne_bracket {v : Json} (h : v.IsFinite) {xs ys : List Char} :
    v.chars ++ xs ≠ ']' :: ys := by
  intro heq
  obtain ⟨c, cs, hcs, hc⟩ := chars_head h
  rw [hcs] at heq
  rw [(List.cons.inj heq).1] at hc
  cases hc

/-- The values of a kind. -/
theorem eq_of_kind (v : Json) :
    match v.kind with
    | .null => v = .null
    | .yes => v = .bool true
    | .no => v = .bool false
    | .number => ∃ n, v = .number n
    | .string => ∃ s, v = .string s
    | .array => ∃ items, v = .array items
    | .object => ∃ members, v = .object members := by
  cases v with
  | null => rfl
  | bool b => cases b <;> rfl
  | number n => exact ⟨n, rfl⟩
  | string s => exact ⟨s, rfl⟩
  | array items => exact ⟨items, rfl⟩
  | object members => exact ⟨members, rfl⟩

mutual

/-- **The text of a value** tells the value and where it ends. -/
theorem chars_append_inj (v w : Json) (hv : v.IsFinite) (hw : w.IsFinite) {xs ys : List Char}
    (hx : Ends xs) (hy : Ends ys) (h : v.chars ++ xs = w.chars ++ ys) : v = w ∧ xs = ys := by
  have hkind := eq_of_kind w
  rw [kind_eq hv hw h] at hkind
  match v with
  | .null =>
    obtain rfl := hkind
    exact ⟨rfl, by simpa [chars] using h⟩
  | .bool true =>
    obtain rfl := hkind
    exact ⟨rfl, by simpa [chars] using h⟩
  | .bool false =>
    obtain rfl := hkind
    exact ⟨rfl, by simpa [chars] using h⟩
  | .number n =>
    obtain ⟨m, rfl⟩ := hkind
    simp only [chars] at h
    obtain ⟨htext, hxs⟩ := number_append_inj (Number.text_chars (number_isFinite hv))
      (Number.text_chars (number_isFinite hw)) hx hy h
    have hnm := Number.text_injective (number_isFinite hv) (number_isFinite hw)
      (String.toList_inj.1 htext)
    exact ⟨congrArg Json.number hnm, hxs⟩
  | .string s =>
    obtain ⟨s', rfl⟩ := hkind
    simp only [chars] at h
    obtain ⟨hs, hxs⟩ := stringChars_append_inj h
    exact ⟨congrArg Json.string hs, hxs⟩
  | .array [] =>
    obtain ⟨items', rfl⟩ := hkind
    cases items' with
    | nil => exact ⟨rfl, by simpa [chars] using h⟩
    | cons y items' =>
      simp only [IsFinite, ItemsFinite] at hw
      simp only [chars, List.cons_append, List.append_assoc, List.nil_append] at h
      exact absurd (List.cons.inj h).2.symm (chars_ne_bracket hw.1)
  | .array (x :: items) =>
    obtain ⟨items', rfl⟩ := hkind
    cases items' with
    | nil =>
      simp only [IsFinite, ItemsFinite] at hv
      simp only [chars, List.cons_append, List.append_assoc, List.nil_append] at h
      exact absurd (List.cons.inj h).2 (chars_ne_bracket hv.1)
    | cons y items' =>
      simp only [IsFinite, ItemsFinite] at hv hw
      simp only [chars, List.cons_append, List.append_assoc] at h
      obtain ⟨rfl, hrest⟩ := chars_append_inj x y hv.1 hw.1 (ends_itemsChars _ _)
        (ends_itemsChars _ _) (List.cons.inj h).2
      obtain ⟨rfl, hxs⟩ := itemsChars_append_inj items items' hv.2 hw.2 hrest
      exact ⟨rfl, hxs⟩
  | .object [] =>
    obtain ⟨members', rfl⟩ := hkind
    cases members' with
    | nil => exact ⟨rfl, by simpa [chars] using h⟩
    | cons m' members' => simp [chars, stringChars] at h
  | .object ((k, x) :: members) =>
    obtain ⟨members', rfl⟩ := hkind
    match members' with
    | [] => simp [chars, stringChars] at h
    | (k', y) :: members' =>
      simp only [IsFinite, MembersFinite] at hv hw
      simp only [chars, List.cons_append, List.append_assoc] at h
      obtain ⟨rfl, hvalue⟩ := stringChars_append_inj (List.cons.inj h).2
      obtain ⟨rfl, hrest⟩ := chars_append_inj x y hv.1 hw.1 (ends_membersChars _ _)
        (ends_membersChars _ _) (List.cons.inj hvalue).2
      obtain ⟨rfl, hxs⟩ := membersChars_append_inj members members' hv.2 hw.2 hrest
      exact ⟨rfl, hxs⟩

/-- The items after the first one, likewise. -/
theorem itemsChars_append_inj (items items' : List Json) (hv : ItemsFinite items)
    (hw : ItemsFinite items') {xs ys : List Char}
    (h : itemsChars items ++ xs = itemsChars items' ++ ys) : items = items' ∧ xs = ys := by
  match items, items' with
  | [], [] => exact ⟨rfl, by simpa [itemsChars] using h⟩
  | [], y :: items' => simp [itemsChars] at h
  | x :: items, [] => simp [itemsChars] at h
  | x :: items, y :: items' =>
    simp only [ItemsFinite] at hv hw
    simp only [itemsChars, List.cons_append, List.append_assoc] at h
    obtain ⟨rfl, hrest⟩ := chars_append_inj x y hv.1 hw.1 (ends_itemsChars _ _)
      (ends_itemsChars _ _) (List.cons.inj h).2
    obtain ⟨rfl, hxs⟩ := itemsChars_append_inj items items' hv.2 hw.2 hrest
    exact ⟨rfl, hxs⟩

/-- The members after the first one, likewise. -/
theorem membersChars_append_inj (members members' : List (String × Json))
    (hv : MembersFinite members) (hw : MembersFinite members') {xs ys : List Char}
    (h : membersChars members ++ xs = membersChars members' ++ ys) :
    members = members' ∧ xs = ys := by
  match members, members' with
  | [], [] => exact ⟨rfl, by simpa [membersChars] using h⟩
  | [], m' :: members' => simp [membersChars] at h
  | m :: members, [] => simp [membersChars] at h
  | (k, x) :: members, (k', y) :: members' =>
    simp only [MembersFinite] at hv hw
    simp only [membersChars, List.cons_append, List.append_assoc] at h
    obtain ⟨rfl, hvalue⟩ := stringChars_append_inj (List.cons.inj h).2
    obtain ⟨rfl, hrest⟩ := chars_append_inj x y hv.1 hw.1 (ends_membersChars _ _)
      (ends_membersChars _ _) (List.cons.inj hvalue).2
    obtain ⟨rfl, hxs⟩ := membersChars_append_inj members members' hv.2 hw.2 hrest
    exact ⟨rfl, hxs⟩

end

/-! ## Texts of one line -/

/-- No character is a control character of ASCII. -/
def Printable (cs : List Char) : Prop := ∀ c ∈ cs, 32 ≤ c.toNat

theorem printable_cons {c : Char} {cs : List Char} :
    Printable (c :: cs) ↔ 32 ≤ c.toNat ∧ Printable cs := List.forall_mem_cons

theorem printable_append {cs ds : List Char} :
    Printable (cs ++ ds) ↔ Printable cs ∧ Printable ds := List.forall_mem_append

/-- Control characters are escaped. -/
theorem printable_escapeChar (c : Char) : Printable (escapeChar c) := by
  by_cases hc : c ∈ specials
  · have hall : specials.all (fun c => (escapeChar c).all fun d => 32 ≤ d.toNat) = true := by
      decide +kernel
    simpa [Printable] using List.all_eq_true.1 hall c hc
  · rw [escapeChar_other hc]
    have hlow := mt (fun h => mem_specials.2 (.inl h)) hc
    simpa [Printable] using hlow

theorem printable_stringChars (s : String) : Printable (stringChars s) := by
  have hinner : Printable (s.toList.flatMap escapeChar) := by
    intro d hd
    obtain ⟨c, -, hd⟩ := List.mem_flatMap.1 hd
    exact printable_escapeChar c d hd
  exact printable_cons.2 ⟨by decide, printable_append.2 ⟨hinner, by simp [Printable]⟩⟩

/-- A member has none, if what it maps to and what follows have none. -/
theorem printable_member (k : String) {cs ds : List Char} (hc : Printable cs) (hd : Printable ds) :
    Printable (stringChars k ++ ':' :: (cs ++ ds)) :=
  printable_append.2 ⟨printable_stringChars k,
    printable_cons.2 ⟨by decide, printable_append.2 ⟨hc, hd⟩⟩⟩

/-- A number has none. -/
theorem printable_number {n : Number} (h : n.IsFinite) : Printable n.text.toList := by
  intro c hc
  rcases Number.text_chars h c hc with hdigit | hmark
  · have := Char.isDigit_iff_toNat.1 hdigit
    simp only [Char.reduceToNat] at this
    omega
  · simp only [List.mem_cons, List.not_mem_nil, or_false] at hmark
    rcases hmark with rfl | rfl | rfl | rfl <;> decide

mutual

/-- **The text of a value** is on one line. -/
theorem printable_chars (v : Json) (h : v.IsFinite) : Printable v.chars := by
  match v with
  | .null => simp [chars, Printable]
  | .bool true => simp [chars, Printable]
  | .bool false => simp [chars, Printable]
  | .number n => exact printable_number (number_isFinite h)
  | .string s => exact printable_stringChars s
  | .array [] => simp [chars, Printable]
  | .array (x :: items) =>
    exact printable_cons.2 ⟨by decide,
      printable_append.2 ⟨printable_chars x h.1, printable_itemsChars items h.2⟩⟩
  | .object [] => simp [chars, Printable]
  | .object ((k, x) :: members) =>
    exact printable_cons.2 ⟨by decide,
      printable_member k (printable_chars x h.1) (printable_membersChars members h.2)⟩

/-- So are the items of an array. -/
theorem printable_itemsChars (items : List Json) (h : ItemsFinite items) :
    Printable (itemsChars items) := by
  match items with
  | [] => simp [itemsChars, Printable]
  | x :: items =>
    exact printable_cons.2 ⟨by decide,
      printable_append.2 ⟨printable_chars x h.1, printable_itemsChars items h.2⟩⟩

/-- And the members of an object. -/
theorem printable_membersChars (members : List (String × Json)) (h : MembersFinite members) :
    Printable (membersChars members) := by
  match members with
  | [] => simp [membersChars, Printable]
  | (k, x) :: members =>
    exact printable_cons.2 ⟨by decide,
      printable_member k (printable_chars x h.1) (printable_membersChars members h.2)⟩

end

end Json

end Conductor
