import Conductor.Proofs.Json.RoundTrip
/-!
# JSON — what is read is kept

A value that is read from a text is one as values are kept: its objects are sorted, its
numbers are integers of 64 bits or finite, and no more arrays and objects are open at once
in it than the reader admits (`Document.isKept_of_value`). So whatever was read can be
written and read again. That the integers are of 64 bits is settled by the scanner of
numbers (`scanNumber_kept`), and goes through the reader unchanged (`reads_kept`).
-/

namespace Conductor

/-! ## Tables -/

/-- The entries behind an insertion are the new one and some of those before it. -/
theorem Table.eq_or_mem_of_mem_insert {α : Type} {t : Table α} {k : String} {v : α}
    {e : String × α} (h : e ∈ t.insert k v) : e = (k, v) ∨ e ∈ t := by
  induction t with
  | nil => exact .inl (List.mem_singleton.1 h)
  | cons x t ih =>
    obtain ⟨k', v'⟩ := x
    simp only [insert] at h
    split at h
    · exact (List.mem_cons.1 h)
    · split at h
      · exact (List.mem_cons.1 h).imp_right (List.mem_cons_of_mem _)
      · rcases List.mem_cons.1 h with rfl | h
        · exact .inr (List.mem_cons_self ..)
        · exact (ih h).imp_right (List.mem_cons_of_mem _)

namespace Json

/-- What a step that goes on has read, and what the rest makes of it. -/
theorem bind_eq_ok {ε α β : Type} {x : Except ε α} {f : α → Except ε β} {b : β} :
    x >>= f = .ok b ↔ ∃ a, x = .ok a ∧ f a = .ok b := by
  cases x <;> simp [bind, Except.bind]

/-! ## Numbers of a document -/

mutual

/-- The numbers in the values of a document are numbers as they are kept. -/
def Document.NumbersKept : Document → Prop
  | .number n => n.IsKept
  | .array items _ => Document.ItemsNumbersKept items
  | .object members _ => Document.MembersNumbersKept members
  | _ => True

/-- Those of the items are. -/
def Document.ItemsNumbersKept : List Document → Prop
  | [] => True
  | d :: ds => Document.NumbersKept d ∧ Document.ItemsNumbersKept ds

/-- Those of the members are; the names do not count. -/
def Document.MembersNumbersKept : List (Document × Document) → Prop
  | [] => True
  | (_, d) :: ms => Document.NumbersKept d ∧ Document.MembersNumbersKept ms

end

/-! ## Tokens -/

variable {negative : Bool} {x : Decimal.Scientific} {n : Nat} {bs : List UInt8}

/-- A number that digits are pushed to fits in 64 bits. -/
theorem pushDigits_lt (hn : n < Width.natBound64) (ds : List UInt8) :
    (pushDigits n ds).1 < Width.natBound64 := by
  induction ds generalizing n with
  | nil => exact hn
  | cons d ds ih =>
    rw [pushDigits]
    split
    · rename_i hnext
      exact ih hnext
    · exact hn

theorem wholeDigits_lt (whole : List UInt8) : (wholeDigits whole).digits < Width.natBound64 :=
  pushDigits_lt (by decide) whole

theorem realNumber_kept (hx : x.digits < Width.natBound64) :
    (realNumber negative x).NumbersKept := by
  unfold realNumber
  split
  · rename_i hread
    exact Binary64.isFinite_of_ofParts? hx hread
  · trivial

theorem wholeNumber_kept (hx : x.digits < Width.natBound64) :
    (wholeNumber negative x).NumbersKept := by
  unfold wholeNumber
  extract_lets i
  split
  · rename_i hfits
    exact hfits.2.1
  · exact realNumber_kept hx

theorem scanExponent_kept (hx : x.digits < Width.natBound64) :
    (scanExponent negative x bs).document.NumbersKept := by
  unfold scanExponent
  extract_lets minus bs ds rest e
  split
  · trivial
  · exact realNumber_kept hx

theorem scanFraction_kept (hx : x.digits < Width.natBound64) :
    (scanFraction negative x bs).document.NumbersKept := by
  cases bs with
  | nil => exact wholeNumber_kept hx
  | cons b bs =>
    rw [scanFraction]
    split
    · dsimp only
      split
      · trivial
      · split
        · exact scanExponent_kept (pushDigits_lt hx _)
        · exact realNumber_kept (pushDigits_lt hx _)
    · split
      · exact scanExponent_kept hx
      · exact wholeNumber_kept hx

/-- **A number that is scanned** is one as numbers are kept. -/
theorem scanNumber_kept : (scanNumber negative bs).document.NumbersKept := by
  cases bs with
  | nil => trivial
  | cons b bs =>
    rw [scanNumber]
    split
    · split
      · trivial
      · exact scanFraction_kept (wholeDigits_lt _)
    · split
      · exact scanFraction_kept (wholeDigits_lt _)
      · trivial

/-- A string is no number, and a flaw is none. -/
theorem scanString_kept (done : List UInt8) (flaw : Option Flaw) (bs : List UInt8) :
    (scanString done flaw bs).document.NumbersKept := by
  fun_induction scanString done flaw bs with
  | case2 done flaw bs =>
    unfold stringDocument
    split
    · trivial
    · split <;> trivial
  | _ => trivial

theorem scanWord_kept {d : Document} (hd : d.NumbersKept) (word bs : List UInt8) :
    (scanWord word d bs).document.NumbersKept := by
  induction word generalizing bs with
  | nil => exact hd
  | cons w word ih =>
    cases bs with
    | nil => trivial
    | cons b bs =>
      rw [scanWord]
      split
      · exact ih bs
      · trivial

/-! ## Reading -/

theorem kept_ite {c : Prop} [Decidable c] {r r' : Reading} (h : r.document.NumbersKept)
    (h' : r'.document.NumbersKept) : (if c then r else r').document.NumbersKept := by
  split <;> assumption

theorem kept_of_eq {r : Reading} {d : Document} {rest? : Option (List UInt8)}
    (h : r = ⟨d, rest?⟩) (hr : r.document.NumbersKept) : d.NumbersKept := by
  rw [h] at hr
  exact hr

/-- What is read with the fuel given has numbers as they are kept: a value, the items of an
array and the members of an object. -/
structure ReadsKept (fuel : Nat) : Prop where
  value : ∀ nesting bs, (readValue fuel nesting bs).document.NumbersKept
  items : ∀ nesting bs, Document.ItemsNumbersKept (readItems fuel nesting bs).1
  members : ∀ nesting bs, Document.MembersNumbersKept (readMembers fuel nesting bs).1

namespace ReadsKept

variable {fuel : Nat}

theorem zero : ReadsKept 0 where
  value nesting bs := by
    rw [readValue.eq_def]
    trivial
  items nesting bs := by
    rw [readItems.eq_def]
    trivial
  members nesting bs := by
    rw [readMembers.eq_def]
    trivial

theorem value_succ (h : ReadsKept fuel) (nesting : Nat) (bs : List UInt8) :
    (readValue (fuel + 1) nesting bs).document.NumbersKept := by
  cases bs with
  | nil =>
    rw [readValue.eq_def]
    trivial
  | cons b rest =>
    rw [readValue.eq_def]
    refine kept_ite (scanWord_kept (d := .null) trivial ..) ?_
    refine kept_ite (scanWord_kept (d := .bool true) trivial ..) ?_
    refine kept_ite (scanWord_kept (d := .bool false) trivial ..) ?_
    refine kept_ite (scanString_kept ..) ?_
    refine kept_ite scanNumber_kept (kept_ite scanNumber_kept ?_)
    -- an array or an object has its items or members to read, if it has any
    refine kept_ite ?_ (kept_ite ?_ trivial)
    · cases nesting with
      | zero => trivial
      | succ nesting =>
        dsimp only
        cases skipGap rest with
        | nil => trivial
        | cons c rest => exact kept_ite trivial (h.items ..)
    · cases nesting with
      | zero => trivial
      | succ nesting =>
        dsimp only
        cases skipGap rest with
        | nil => trivial
        | cons c rest => exact kept_ite trivial (h.members ..)

theorem items_succ (h : ReadsKept fuel) (nesting : Nat) (bs : List UInt8) :
    Document.ItemsNumbersKept (readItems (fuel + 1) nesting bs).1 := by
  rw [readItems.eq_def]
  dsimp only
  split
  · rename_i hread
    exact ⟨kept_of_eq hread (h.value ..), trivial⟩
  · rename_i hread
    split
    · exact ⟨kept_of_eq hread (h.value ..), trivial⟩
    · exact ⟨kept_of_eq hread (h.value ..), h.items ..⟩

theorem members_succ (h : ReadsKept fuel) (nesting : Nat) (bs : List UInt8) :
    Document.MembersNumbersKept (readMembers (fuel + 1) nesting bs).1 := by
  cases bs with
  | nil =>
    rw [readMembers.eq_def]
    exact ⟨trivial, trivial⟩
  | cons b rest =>
    rw [readMembers.eq_def]
    dsimp only
    -- the text ends, or has something else, before the value begins
    split
    · exact ⟨trivial, trivial⟩
    split
    · exact ⟨trivial, trivial⟩
    split
    · exact ⟨trivial, trivial⟩
    split
    · exact ⟨trivial, trivial⟩
    split
    · rename_i hread
      exact ⟨kept_of_eq hread (h.value ..), trivial⟩
    · rename_i hread
      split
      · exact ⟨kept_of_eq hread (h.value ..), trivial⟩
      · exact ⟨kept_of_eq hread (h.value ..), h.members ..⟩

end ReadsKept

/-- **The numbers of what is read** are numbers as they are kept, whatever the fuel. -/
theorem reads_kept (fuel : Nat) : ReadsKept fuel := by
  induction fuel with
  | zero => exact .zero
  | succ fuel ih => exact ⟨ih.value_succ, ih.items_succ, ih.members_succ⟩

/-! ## Values -/

/-- A bound within an array or object is one less than that on it. -/
theorem depth_bound {nesting : Option Nat} {m n : Nat} (hne : nesting ≠ some 0)
    (h : ∀ n ∈ nesting.map (· - 1), m ≤ n) (hn : n ∈ nesting) : m + 1 ≤ n := by
  have hm := h (n - 1) (Option.mem_map_of_mem _ hn)
  have hpos : n ≠ 0 := by
    rintro rfl
    exact hne hn
  omega

mutual

/-- **The value of a document** is one as values are kept, within the bound. -/
theorem isKept_of_value (d : Document) (hd : d.NumbersKept) {nesting : Option Nat} {v : Json}
    (h : Document.value nesting d = .ok v) : v.IsKept ∧ ∀ n ∈ nesting, v.depth ≤ n := by
  match d with
  | .null => cases h; exact ⟨trivial, fun _ _ => Nat.zero_le _⟩
  | .bool _ => cases h; exact ⟨trivial, fun _ _ => Nat.zero_le _⟩
  | .string _ => cases h; exact ⟨trivial, fun _ _ => Nat.zero_le _⟩
  | .number (.int _) => cases h; exact ⟨hd, fun _ _ => Nat.zero_le _⟩
  | .number (.real x) =>
    rw [Document.value, if_pos (show x.isFinite = true from hd)] at h
    cases h
    exact ⟨hd, fun _ _ => Nat.zero_le _⟩
  | .flawed _ => cases h
  | .broken _ => cases h
  | .stray _ => cases h
  | .array items finish =>
    rw [Document.value] at h
    split at h
    · cases h
    rename_i hne
    obtain ⟨xs, hxs, h⟩ := bind_eq_ok.1 h
    obtain ⟨-, -, h⟩ := bind_eq_ok.1 h
    cases h
    obtain ⟨hkept, hdepth⟩ := isKept_of_values items hd hxs
    exact ⟨hkept, fun n hn => depth_bound hne hdepth hn⟩
  | .object members finish =>
    rw [Document.value] at h
    split at h
    · cases h
    rename_i hne
    obtain ⟨ms, hms, h⟩ := bind_eq_ok.1 h
    obtain ⟨-, -, h⟩ := bind_eq_ok.1 h
    cases h
    obtain ⟨hsorted, hall⟩ := isKept_of_entries members hd hms .nil (by simp)
    exact ⟨⟨hsorted, membersKept_iff.2 fun m hm => (hall m hm).1⟩, fun n hn =>
      depth_bound hne (fun n hn => membersDepth_le_iff.2 fun m hm => (hall m hm).2 n hn) hn⟩

/-- So are the items of an array. -/
theorem isKept_of_values (items : List Document) (hd : Document.ItemsNumbersKept items)
    {nesting : Option Nat} {xs : List Json} (h : Document.values nesting items = .ok xs) :
    ItemsKept xs ∧ ∀ n ∈ nesting, itemsDepth xs ≤ n := by
  match items with
  | [] => cases h; exact ⟨trivial, fun _ _ => Nat.zero_le _⟩
  | d :: items =>
    rw [Document.values] at h
    obtain ⟨x, hx, h⟩ := bind_eq_ok.1 h
    obtain ⟨xs, hxs, h⟩ := bind_eq_ok.1 h
    cases h
    obtain ⟨hkept, hdepth⟩ := isKept_of_value d hd.1 hx
    obtain ⟨hrest, hrestDepth⟩ := isKept_of_values items hd.2 hxs
    exact ⟨⟨hkept, hrest⟩, fun n hn => max_le (hdepth n hn) (hrestDepth n hn)⟩

/-- And the members of an object, on top of the table of those before them. -/
theorem isKept_of_entries (members : List (Document × Document))
    (hd : Document.MembersNumbersKept members) {nesting : Option Nat} {t ms : Table Json}
    (h : Document.entries nesting members t = .ok ms) (hsorted : t.Sorted)
    (ht : ∀ m ∈ t, m.2.IsKept ∧ ∀ n ∈ nesting, m.2.depth ≤ n) :
    ms.Sorted ∧ ∀ m ∈ ms, m.2.IsKept ∧ ∀ n ∈ nesting, m.2.depth ≤ n := by
  match members with
  | [] => cases h; exact ⟨hsorted, ht⟩
  | (name, d) :: members =>
    rw [Document.entries] at h
    obtain ⟨k, -, h⟩ := bind_eq_ok.1 h
    obtain ⟨x, hx, h⟩ := bind_eq_ok.1 h
    refine isKept_of_entries members hd.2 h hsorted.insert fun m hm => ?_
    rcases Table.eq_or_mem_of_mem_insert hm with rfl | hm
    · exact isKept_of_value d hd.1 hx
    · exact ht m hm

end

end Json

end Conductor
