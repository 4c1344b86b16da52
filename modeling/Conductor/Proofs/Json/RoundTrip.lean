import Conductor.Proofs.Json.Token
import Conductor.Proofs.Table
/-!
# JSON — what is read of the text of a value

A value that is kept has sorted objects, and numbers of the two kinds that are told
apart. Of its text the value is read with its numbers reread (`parseText_text`), unless more
arrays and objects are open at once in it than a reader admits: but for real numbers of
many digits that is the value itself. The reader goes over the text once:
`readValue_chars` says what it makes of a text that something follows, and the document
so made has the value (`value_ofJson`).
-/

namespace Conductor

namespace Json

open Text.Utf8

mutual

/-- The value is one as values are kept: objects are tables, and numbers are integers of
64 bits or finite. -/
def IsKept : Json → Prop
  | .number n => n.IsKept
  | .array xs => ItemsKept xs
  | .object ms => Table.Sorted ms ∧ MembersKept ms
  | _ => True

/-- The items are. -/
def ItemsKept : List Json → Prop
  | [] => True
  | x :: xs => IsKept x ∧ ItemsKept xs

/-- The members are. -/
def MembersKept : List (String × Json) → Prop
  | [] => True
  | (_, v) :: ms => IsKept v ∧ MembersKept ms

end

mutual

/-- The number of arrays and objects open at once in a value. -/
def depth : Json → Nat
  | .array xs => itemsDepth xs + 1
  | .object ms => membersDepth ms + 1
  | _ => 0

/-- The greatest depth of an item. -/
def itemsDepth : List Json → Nat
  | [] => 0
  | x :: xs => max (depth x) (itemsDepth xs)

/-- The greatest depth of a member. -/
def membersDepth : List (String × Json) → Nat
  | [] => 0
  | (_, v) :: ms => max (depth v) (membersDepth ms)

end

mutual

/-- **What is read of the text of a value**: the value with its numbers reread. -/
def reread : Json → Json
  | .number n => .number n.reread
  | .array xs => .array (itemsReread xs)
  | .object ms => .object (membersReread ms)
  | v => v

/-- The items reread. -/
def itemsReread : List Json → List Json
  | [] => []
  | x :: xs => reread x :: itemsReread xs

/-- The members reread. -/
def membersReread : List (String × Json) → List (String × Json)
  | [] => []
  | (k, v) :: ms => (k, reread v) :: membersReread ms

end

theorem itemsReread_eq_map (xs : List Json) : itemsReread xs = xs.map reread := by
  induction xs with
  | nil => rfl
  | cons x xs ih => rw [itemsReread, ih, List.map_cons]

theorem membersReread_eq_map (ms : List (String × Json)) :
    membersReread ms = ms.map fun m => (m.1, m.2.reread) := by
  induction ms with
  | nil => rfl
  | cons m ms ih => rw [membersReread, ih, List.map_cons]

/-- Members stay in their order. -/
theorem sorted_membersReread {ms : Table Json} (h : Table.Sorted ms) :
    Table.Sorted (membersReread ms) := by
  rw [membersReread_eq_map]
  exact List.pairwise_map.2 h

mutual

/-- What is reread is kept. -/
theorem IsKept.reread (v : Json) (h : v.IsKept) : v.reread.IsKept := by
  match v with
  | .null => trivial
  | .bool _ => trivial
  | .string _ => trivial
  | .number _ => exact Number.IsKept.reread h
  | .array xs => exact ItemsKept.reread xs h
  | .object ms => exact ⟨sorted_membersReread h.1, MembersKept.reread ms h.2⟩

theorem ItemsKept.reread (xs : List Json) (h : ItemsKept xs) : ItemsKept (itemsReread xs) := by
  match xs with
  | [] => trivial
  | x :: xs => exact ⟨IsKept.reread x h.1, ItemsKept.reread xs h.2⟩

theorem MembersKept.reread (ms : List (String × Json)) (h : MembersKept ms) :
    MembersKept (membersReread ms) := by
  match ms with
  | [] => trivial
  | (_, v) :: ms => exact ⟨IsKept.reread v h.1, MembersKept.reread ms h.2⟩

end

mutual

/-- It is as deep. -/
theorem depth_reread (v : Json) : v.reread.depth = v.depth := by
  match v with
  | .null => rfl
  | .bool _ => rfl
  | .string _ => rfl
  | .number _ => rfl
  | .array xs => exact congrArg (· + 1) (itemsDepth_reread xs)
  | .object ms => exact congrArg (· + 1) (membersDepth_reread ms)

theorem itemsDepth_reread (xs : List Json) : itemsDepth (itemsReread xs) = itemsDepth xs := by
  match xs with
  | [] => rfl
  | x :: xs => exact congrArg₂ max (depth_reread x) (itemsDepth_reread xs)

theorem membersDepth_reread (ms : List (String × Json)) :
    membersDepth (membersReread ms) = membersDepth ms := by
  match ms with
  | [] => rfl
  | (_, v) :: ms => exact congrArg₂ max (depth_reread v) (membersDepth_reread ms)

end

mutual

/-- Numbers that are kept are finite. -/
theorem IsKept.isFinite (v : Json) (h : v.IsKept) : v.IsFinite := by
  match v with
  | .null => trivial
  | .bool _ => trivial
  | .string _ => trivial
  | .number (.int _) => trivial
  | .number (.real _) => exact h
  | .array xs => exact ItemsKept.isFinite xs h
  | .object ms => exact MembersKept.isFinite ms h.2

theorem ItemsKept.isFinite (xs : List Json) (h : ItemsKept xs) : ItemsFinite xs := by
  match xs with
  | [] => trivial
  | x :: xs => exact ⟨IsKept.isFinite x h.1, ItemsKept.isFinite xs h.2⟩

theorem MembersKept.isFinite (ms : List (String × Json)) (h : MembersKept ms) :
    MembersFinite ms := by
  match ms with
  | [] => trivial
  | (_, v) :: ms => exact ⟨IsKept.isFinite v h.1, MembersKept.isFinite ms h.2⟩

end

theorem membersKept_iff {ms : List (String × Json)} :
    MembersKept ms ↔ ∀ m ∈ ms, m.2.IsKept := by
  induction ms with
  | nil => simp [MembersKept]
  | cons m ms ih => simp only [MembersKept, ih, List.forall_mem_cons]

theorem membersDepth_le_iff {ms : List (String × Json)} {n : Nat} :
    membersDepth ms ≤ n ↔ ∀ m ∈ ms, m.2.depth ≤ n := by
  induction ms with
  | nil => simp [membersDepth]
  | cons m ms ih => simp only [membersDepth, max_le_iff, ih, List.forall_mem_cons]

variable {v : Json} {xs : List Char} {bs rest : List UInt8} {fuel nesting : Nat}

/-! ## Between tokens -/

/-- No text of a value begins with a gap, or with a closing bracket. -/
theorem encode_chars (h : v.IsKept) (xs : List Char) :
    ∃ b bs, encode (v.chars ++ xs) = b :: bs ∧ isGap b = false ∧ b ≠ 0x5D := by
  obtain ⟨c, cs, hcs, hc⟩ := chars_head h.isFinite
  have hne : String.utf8EncodeChar c ≠ [] := String.utf8EncodeChar_ne_nil
  obtain ⟨b, bs, hb⟩ := List.exists_cons_of_ne_nil hne
  -- an octet of ASCII would be the character itself
  have hcode : ∀ n < 128, b.toNat = n → Kind.ofChar? (Char.ofNat n) = some v.kind := by
    rintro n hn rfl
    have heq := (eq_singleton_of_mem (hb ▸ List.mem_cons_self ..) hn).2
    rw [← heq, Char.ofNat_toNat]
    exact hc
  refine ⟨b, bs ++ encode (cs ++ xs), by rw [hcs, List.cons_append, encode_cons, hb]; rfl, ?_, ?_⟩
  · by_contra hgap
    simp only [isGap, Bool.not_eq_false, Bool.or_eq_true, decide_eq_true_eq] at hgap
    rcases hgap with ((rfl | rfl) | rfl) | rfl
    · cases hcode 32 (by decide) rfl
    · cases hcode 10 (by decide) rfl
    · cases hcode 13 (by decide) rfl
    · cases hcode 9 (by decide) rfl
  · rintro rfl
    cases hcode 93 (by decide) rfl

theorem skipGap_chars (h : v.IsKept) (xs : List Char) :
    skipGap (encode (v.chars ++ xs)) = encode (v.chars ++ xs) := by
  obtain ⟨b, bs, hb, hgap, -⟩ := encode_chars h xs
  rw [hb, skipGap, List.dropWhile_cons_of_neg (by simp [hgap])]

/-- What stands behind an item closes it. -/
theorem closes_itemsChars (items : List Json) (xs : List Char) :
    Closes (itemsChars items ++ xs) := by
  cases items <;> simp [Closes, itemsChars]

theorem closes_membersChars (members : List (String × Json)) (xs : List Char) :
    Closes (membersChars members ++ xs) := by
  cases members <;> simp [Closes, membersChars]

/-! ## One step of reading -/

section Step

variable {b : UInt8} {d name : Document} {finish : Finish} {rest? : Option (List UInt8)}

theorem readValue_digit (h : isDigit b = true) :
    readValue (fuel + 1) nesting (b :: bs) = scanNumber false (b :: bs) := by
  have hrange := isDigit_iff.1 h
  have hne : b ≠ 0x6E ∧ b ≠ 0x74 ∧ b ≠ 0x66 ∧ b ≠ 0x22 ∧ b ≠ 0x2D := by
    refine ⟨?_, ?_, ?_, ?_, ?_⟩ <;> rintro rfl <;> simp at hrange
  rw [readValue.eq_def]
  simp only [hne, if_false, h, if_true]

/-- An array that has items. -/
theorem readValue_bracket {items : List Document} (hgap : isGap b = false) (hb : b ≠ 0x5D)
    (h : readItems fuel nesting (b :: bs) = (items, finish, rest?)) :
    readValue (fuel + 1) (nesting + 1) (0x5B :: b :: bs) = ⟨.array items finish, rest?⟩ := by
  have hskip : skipGap (b :: bs) = b :: bs := List.dropWhile_cons_of_neg (by simp [hgap])
  rw [readValue.eq_def]
  simp only [hskip, hb, if_false, h]
  rfl

/-- An object that has members. -/
theorem readValue_brace {members : List (Document × Document)}
    (h : readMembers fuel nesting (0x22 :: bs) = (members, finish, rest?)) :
    readValue (fuel + 1) (nesting + 1) (0x7B :: 0x22 :: bs) = ⟨.object members finish, rest?⟩ := by
  have hread : readValue (fuel + 1) (nesting + 1) (0x7B :: 0x22 :: bs) =
      ⟨.object (readMembers fuel nesting (0x22 :: bs)).1
        (readMembers fuel nesting (0x22 :: bs)).2.1,
        (readMembers fuel nesting (0x22 :: bs)).2.2⟩ := rfl
  rw [hread, h]

theorem readItems_last (hvalue : readValue fuel nesting bs = ⟨d, some rest⟩)
    (hsep : scanSeparator 0x5D rest = .finished finish rest?) :
    readItems (fuel + 1) nesting bs = ([d], finish, rest?) := by
  rw [readItems]
  simp only [hvalue, hsep]

theorem readItems_next {rest' : List UInt8} {items : List Document}
    (hvalue : readValue fuel nesting bs = ⟨d, some rest⟩)
    (hsep : scanSeparator 0x5D rest = .next rest')
    (h : readItems fuel nesting rest' = (items, finish, rest?)) :
    readItems (fuel + 1) nesting bs = (d :: items, finish, rest?) := by
  rw [readItems]
  simp only [hvalue, hsep, h]

theorem readMembers_last {rest' : List UInt8}
    (hname : scanString [] none bs = ⟨name, some (0x3A :: rest)⟩)
    (hvalue : readValue fuel nesting (skipGap rest) = ⟨d, some rest'⟩)
    (hsep : scanSeparator 0x7D rest' = .finished finish rest?) :
    readMembers (fuel + 1) nesting (0x22 :: bs) = ([(name, d)], finish, rest?) := by
  have hcolon : skipGap (0x3A :: rest) = 0x3A :: rest := rfl
  rw [readMembers.eq_def]
  simp only [ne_eq, not_true, if_false, hname, hcolon, hvalue, hsep]

theorem readMembers_next {rest' rest'' : List UInt8} {members : List (Document × Document)}
    (hname : scanString [] none bs = ⟨name, some (0x3A :: rest)⟩)
    (hvalue : readValue fuel nesting (skipGap rest) = ⟨d, some rest'⟩)
    (hsep : scanSeparator 0x7D rest' = .next rest'')
    (h : readMembers fuel nesting rest'' = (members, finish, rest?)) :
    readMembers (fuel + 1) nesting (0x22 :: bs) = ((name, d) :: members, finish, rest?) := by
  have hcolon : skipGap (0x3A :: rest) = 0x3A :: rest := rfl
  rw [readMembers.eq_def]
  simp only [ne_eq, not_true, if_false, hname, hcolon, hvalue, hsep, h]

end Step

/-! ## Reading -/

/-- A number is read behind its sign, if it has one. -/
theorem readValue_number {n : Number} (hn : n.IsKept) (h : Closes xs) :
    readValue (fuel + 1) nesting (encode (n.text.toList ++ xs)) =
      ⟨.number n.reread, some (encode xs)⟩ := by
  obtain ⟨negative, t, ht, ⟨c, cs, rfl, hc⟩, hscan⟩ := scanNumber_text hn h
  rw [ht]
  cases negative with
  | true => exact hscan
  | false =>
    have hcode := Char.isDigit_iff_toNat.1 hc
    simp only [Char.reduceToNat] at hcode
    have hone : encode (c :: cs ++ xs) = UInt8.ofNat c.toNat :: encode (cs ++ xs) := by
      rw [List.cons_append, encode_cons_ascii (by omega)]
    have hdigit : isDigit (UInt8.ofNat c.toNat) = true := by
      rw [isDigit_iff]
      simp
      omega
    rw [hone] at hscan
    exact (congrArg _ hone).trans ((readValue_digit hdigit).trans hscan)

mutual

/-- **A value** is read to what stands behind it, with its numbers reread. -/
theorem readValue_chars (v : Json) (hv : v.IsKept) {fuel nesting : Nat} {xs : List Char}
    (hfuel : 2 * v.chars.length ≤ fuel) (hdepth : v.depth ≤ nesting) (hx : Closes xs) :
    readValue fuel nesting (encode (v.chars ++ xs)) = ⟨.ofJson v.reread, some (encode xs)⟩ := by
  obtain ⟨fuel, rfl⟩ : ∃ n, fuel = n + 1 := by
    obtain ⟨c, cs, hcs, -⟩ := chars_head hv.isFinite
    rw [hcs, List.length_cons] at hfuel
    exact ⟨fuel - 1, by omega⟩
  match v with
  | .null => rfl
  | .bool true => rfl
  | .bool false => rfl
  | .number n => exact readValue_number hv hx
  | .string s =>
    rw [chars, stringChars, List.append_assoc]
    exact scanString_stringChars s
  | .array [] =>
    obtain ⟨nesting, rfl⟩ : ∃ n, nesting = n + 1 := ⟨nesting - 1, by simp [depth] at hdepth; omega⟩
    rfl
  | .array (x :: items) =>
    obtain ⟨nesting, rfl⟩ : ∃ n, nesting = n + 1 := ⟨nesting - 1, by simp [depth] at hdepth; omega⟩
    have hitems := @readItems_chars (x :: items) (by simp) hv fuel nesting xs
      (by simp [chars, itemsChars] at hfuel ⊢; omega) (by simpa [depth] using hdepth)
    obtain ⟨b, bs, hb, hgap, hne⟩ := encode_chars hv.1 (itemsChars items ++ xs)
    rw [itemsChars, List.tail_cons, List.append_assoc, hb] at hitems
    have hopen : encode ((array (x :: items)).chars ++ xs) = 0x5B :: b :: bs := by
      rw [chars, List.cons_append, List.append_assoc, encode_cons, hb]
      rfl
    rw [hopen]
    exact readValue_bracket hgap hne hitems
  | .object [] =>
    obtain ⟨nesting, rfl⟩ : ∃ n, nesting = n + 1 := ⟨nesting - 1, by simp [depth] at hdepth; omega⟩
    rfl
  | .object ((k, x) :: members) =>
    obtain ⟨nesting, rfl⟩ : ∃ n, nesting = n + 1 := ⟨nesting - 1, by simp [depth] at hdepth; omega⟩
    have hmembers := @readMembers_chars ((k, x) :: members) (by simp) hv.2 fuel nesting xs
      (by simp [chars, membersChars] at hfuel ⊢; omega) (by simpa [depth] using hdepth)
    exact readValue_brace hmembers

/-- So are the items of an array, behind the first mark. -/
theorem readItems_chars (items : List Json) (hne : items ≠ []) (hv : ItemsKept items)
    {fuel nesting : Nat} {xs : List Char} (hfuel : 2 * (itemsChars items).length ≤ fuel + 1)
    (hdepth : itemsDepth items ≤ nesting) :
    readItems fuel nesting (encode ((itemsChars items).tail ++ xs)) =
      (Document.ofItems (itemsReread items), .closed, some (encode xs)) := by
  match items with
  | [] => exact absurd rfl hne
  | x :: items =>
    obtain ⟨fuel, rfl⟩ : ∃ n, fuel = n + 1 :=
      ⟨fuel - 1, by simp [itemsChars] at hfuel; omega⟩
    simp only [itemsChars, List.length_cons, List.length_append] at hfuel
    simp only [itemsDepth] at hdepth
    have hvalue := @readValue_chars x hv.1 fuel nesting (itemsChars items ++ xs) (by omega)
      (by omega) (closes_itemsChars items xs)
    rw [itemsChars, List.tail_cons, List.append_assoc]
    match items with
    | [] => exact readItems_last hvalue rfl
    | y :: items =>
      have hrest := @readItems_chars (y :: items) (by simp) hv.2 fuel nesting xs (by omega)
        (by omega)
      rw [itemsChars, List.tail_cons, List.append_assoc] at hrest
      have hsep : scanSeparator 0x5D (encode (itemsChars (y :: items) ++ xs)) =
          .next (skipGap (encode (y.chars ++ (itemsChars items ++ xs)))) := by
        rw [itemsChars, List.cons_append, List.append_assoc]
        rfl
      rw [skipGap_chars hv.2.1] at hsep
      exact readItems_next hvalue hsep hrest

/-- And the members of an object. -/
theorem readMembers_chars (members : List (String × Json)) (hne : members ≠ [])
    (hv : MembersKept members) {fuel nesting : Nat} {xs : List Char}
    (hfuel : 2 * (membersChars members).length ≤ fuel + 1)
    (hdepth : membersDepth members ≤ nesting) :
    readMembers fuel nesting (encode ((membersChars members).tail ++ xs)) =
      (Document.ofMembers (membersReread members), .closed, some (encode xs)) := by
  match members with
  | [] => exact absurd rfl hne
  | (k, x) :: members =>
    obtain ⟨fuel, rfl⟩ : ∃ n, fuel = n + 1 :=
      ⟨fuel - 1, by simp [membersChars] at hfuel; omega⟩
    simp only [membersChars, List.length_cons, List.length_append] at hfuel
    simp only [membersDepth] at hdepth
    have hvalue := @readValue_chars x hv.1 fuel nesting (membersChars members ++ xs) (by omega)
      (by omega) (closes_membersChars members xs)
    rw [← skipGap_chars hv.1] at hvalue
    have hname := @scanString_stringChars (':' :: (x.chars ++ (membersChars members ++ xs))) k
    have htext : (membersChars ((k, x) :: members)).tail ++ xs =
        '"' :: (k.toList.flatMap escapeChar ++
          '"' :: ':' :: (x.chars ++ (membersChars members ++ xs))) := by
      simp [membersChars, stringChars]
    rw [htext]
    match members with
    | [] => exact readMembers_last hname hvalue rfl
    | (k', y) :: members =>
      have hrest := @readMembers_chars ((k', y) :: members) (by simp) hv.2 fuel nesting xs
        (by omega) (by omega)
      have hsep : scanSeparator 0x7D (encode (membersChars ((k', y) :: members) ++ xs)) =
          .next (encode ((membersChars ((k', y) :: members)).tail ++ xs)) := by
        rw [membersChars, stringChars]
        rfl
      exact readMembers_next hname hvalue hsep hrest

end

/-! ## Documents -/

mutual

/-- **The document of a value** has the value, unless it is too deep. -/
theorem value_ofJson (v : Json) (hv : v.IsKept) {nesting : Option Nat}
    (hdepth : ∀ n ∈ nesting, v.depth ≤ n) :
    Document.value nesting (.ofJson v) = .ok v := by
  have hopen : ∀ n ∈ nesting.map (· - 1), v.depth - 1 ≤ n := by
    intro n hn
    obtain ⟨m, hm, rfl⟩ := Option.map_eq_some_iff.1 hn
    exact Nat.sub_le_sub_right (hdepth m hm) 1
  match v with
  | .null => rfl
  | .bool _ => rfl
  | .string _ => rfl
  | .number (.int _) => rfl
  | .number (.real x) =>
    rw [Document.ofJson, Document.value, if_pos (show x.isFinite = true from hv)]
  | .array items =>
    have hne : nesting ≠ some 0 := by
      rintro rfl
      have := hdepth 0 rfl
      simp [depth] at this
    have hitems := values_ofItems items hv hopen
    rw [Document.ofJson, Document.value, if_neg hne, hitems]
    rfl
  | .object members =>
    have hne : nesting ≠ some 0 := by
      rintro rfl
      have := hdepth 0 rfl
      simp [depth] at this
    have hmembers := @entries_ofMembers members hv.2 _ hopen [] hv.1
    rw [Document.ofJson, Document.value, if_neg hne, hmembers]
    rfl

/-- So do the items of an array. -/
theorem values_ofItems (items : List Json) (hv : ItemsKept items) {nesting : Option Nat}
    (hdepth : ∀ n ∈ nesting, itemsDepth items ≤ n) :
    Document.values nesting (Document.ofItems items) = .ok items := by
  match items with
  | [] => rfl
  | x :: items =>
    have hvalue := value_ofJson x hv.1 fun n hn => le_trans (le_max_left _ _) (hdepth n hn)
    have hrest := values_ofItems items hv.2 fun n hn => le_trans (le_max_right _ _) (hdepth n hn)
    rw [Document.ofItems, Document.values, hvalue, hrest]
    rfl

/-- And the members of an object, on top of those before them. -/
theorem entries_ofMembers (members : List (String × Json)) (hv : MembersKept members)
    {nesting : Option Nat} (hdepth : ∀ n ∈ nesting, membersDepth members ≤ n) {t : Table Json}
    (hsorted : Table.Sorted (t ++ members)) :
    Document.entries nesting (Document.ofMembers members) t = .ok (t ++ members) := by
  match members with
  | [] => rw [Document.ofMembers, Document.entries, List.append_nil]
  | (k, x) :: members =>
    have hvalue := value_ofJson x hv.1 fun n hn => le_trans (le_max_left _ _) (hdepth n hn)
    have hlast : t.insert k x = t ++ [(k, x)] := by
      refine Table.insert_of_forall_lt fun e he => ?_
      exact (List.pairwise_append.1 hsorted).2.2 e he _ (List.mem_cons_self ..)
    rw [List.append_cons] at hsorted ⊢
    have hrest := entries_ofMembers members hv.2
      (fun n hn => le_trans (le_max_right _ _) (hdepth n hn)) hsorted
    rw [Document.ofMembers, Document.entries]
    change (Document.value nesting (Document.ofJson x) >>= fun x =>
      Document.entries nesting (Document.ofMembers members) (t.insert k x)) = _
    rw [hvalue]
    change Document.entries nesting (Document.ofMembers members) (t.insert k x) = _
    rw [hlast, hrest]

end

/-! ## Texts -/

/-- The text of a value is read as one document. -/
theorem readSource_text (hv : v.IsKept) (hdepth : v.depth ≤ nesting) :
    readSource nesting (Text.Utf8.ofString v.text) = ⟨.ofJson v.reread, false⟩ := by
  have hoctets : Text.Utf8.ofString v.text = encode (v.chars ++ []) := by
    rw [Text.Utf8.ofString, text, String.toList_ofList, List.append_nil]
  have hlength := length_le_encode (v.chars ++ [])
  rw [List.append_nil] at hlength
  rw [hoctets, readSource, skipGap_chars hv,
    readValue_chars v hv (by rw [List.append_nil]; omega) hdepth (by simp [Closes])]
  rfl

/-- **The text of a value** holds the value, with its numbers reread. -/
theorem parseText_text (hv : v.IsKept) (hdepth : v.depth ≤ maxNesting) :
    parseText v.text = .ok v.reread := by
  have hvalue := @value_ofJson v.reread (IsKept.reread v hv) (some maxNesting)
    (by simpa [depth_reread] using hdepth)
  rw [parseText, parse, readSource_text hv hdepth]
  change (Document.value (some maxNesting) (.ofJson v.reread) >>= _) = _
  rw [hvalue]
  rfl

end Json

end Conductor
