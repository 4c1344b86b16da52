import Conductor.Json.Decode
import Conductor.Proofs.Json.Kept
import Conductor.Proofs.Table
/-!
# JSON — what is decoded from parts

A value that was read before is decoded to a record part by part, in object form by names
and in list form by places. In either form what a field puts into the record comes from one
part of the value (`Decode.record_keeps`), so what holds of all that the fields can read
from the parts, holds of the record. The parts of a value are less deep than the value
(`parts_kept`). From the text of a value is decoded what is decoded from the value with
its numbers reread (`decodeText_text`).

Of a document in general less is known, but as much of what its decoding gives: a table is in
order (`Decode.sorted_of_table`), and of a record holds what each of its fields keeps
(`Decode.holds_of_record`).
-/

namespace Conductor

variable {σ : Type} {n : Nat}

/-! ## The parts of a value -/

namespace Json

variable {v x : Json} {xs : List Json} {ms : List (String × Json)}

theorem itemsKept_iff : ItemsKept xs ↔ ∀ x ∈ xs, x.IsKept := by
  induction xs with
  | nil => simp [ItemsKept]
  | cons x xs ih => simp only [ItemsKept, ih, List.forall_mem_cons]

theorem itemsDepth_le_iff : itemsDepth xs ≤ n ↔ ∀ x ∈ xs, x.depth ≤ n := by
  induction xs with
  | nil => simp [itemsDepth]
  | cons x xs ih => simp only [itemsDepth, max_le_iff, ih, List.forall_mem_cons]

/-- The items of an array, and the values in an object. -/
def parts : Json → List Json
  | .array xs => xs
  | .object ms => ms.map Prod.snd
  | _ => []

/-- The parts of a value that is kept are kept, and less deep. -/
theorem parts_kept (hv : v.IsKept) (hdepth : v.depth ≤ n + 1) (hx : x ∈ v.parts) :
    x.IsKept ∧ x.depth ≤ n := by
  cases v with
  | array xs =>
    have hparts := itemsDepth_le_iff.1 (Nat.le_of_succ_le_succ hdepth)
    exact ⟨itemsKept_iff.1 hv x hx, hparts x hx⟩
  | object ms =>
    have hparts := membersDepth_le_iff.1 (Nat.le_of_succ_le_succ hdepth)
    obtain ⟨m, hm, rfl⟩ := List.mem_map.1 hx
    exact ⟨membersKept_iff.1 hv.2 m hm, hparts m hm⟩
  | _ => cases hx

theorem ofItems_eq_map : Document.ofItems xs = xs.map Document.ofJson := by
  induction xs with
  | nil => rfl
  | cons x xs ih => rw [Document.ofItems, ih, List.map_cons]

theorem ofMembers_eq_map :
    Document.ofMembers ms = ms.map fun m => (.string m.1, Document.ofJson m.2) := by
  induction ms with
  | nil => rfl
  | cons m ms ih => rw [Document.ofMembers, ih, List.map_cons]

/-! ## The text of a value -/

mutual

/-- Whatever is open in a text is closed in it. -/
theorem depth_le_length (v : Json) : v.depth ≤ v.chars.length := by
  match v with
  | .null | .bool _ | .number _ | .string _ => exact Nat.zero_le _
  | .array [] => decide
  | .array (x :: xs) =>
    have hx := depth_le_length x
    have hxs := itemsDepth_lt_length xs
    simp only [depth, itemsDepth, chars, List.length_cons, List.length_append]
    omega
  | .object [] => decide
  | .object ((k, v) :: ms) =>
    have hv := depth_le_length v
    have hms := membersDepth_lt_length ms
    simp only [depth, membersDepth, chars, List.length_cons, List.length_append]
    omega

theorem itemsDepth_lt_length (xs : List Json) : itemsDepth xs < (itemsChars xs).length := by
  match xs with
  | [] => decide
  | x :: xs =>
    have hx := depth_le_length x
    have hxs := itemsDepth_lt_length xs
    simp only [itemsDepth, itemsChars, List.length_cons, List.length_append]
    omega

theorem membersDepth_lt_length (ms : List (String × Json)) :
    membersDepth ms < (membersChars ms).length := by
  match ms with
  | [] => decide
  | (k, v) :: ms =>
    have hv := depth_le_length v
    have hms := membersDepth_lt_length ms
    simp only [membersDepth, membersChars, List.length_cons, List.length_append]
    omega

end

/-- **What is decoded from the text of a value** is what is decoded from the value with its
numbers reread. -/
theorem decodeText_text {α : Type} {item : Decoder α} (hv : v.IsKept) :
    decodeText item (Text.Utf8.ofString v.text) = item .text (.ofJson v.reread) := by
  have hdepth : v.depth ≤ (Text.Utf8.ofString v.text).length + 1 := by
    have hlength := Text.Utf8.length_le_encode v.chars
    rw [Text.Utf8.ofString, text, String.toList_ofList]
    exact Nat.le_succ_of_le ((depth_le_length v).trans hlength)
  rw [decodeText, readSource_text hv hdepth, decodeSource]
  cases item .text (.ofJson v.reread) <;> rfl

/-! ## Records -/

namespace Decode

variable {r : Shape σ} {f : Field σ} {s : Setting} {finish : Finish} {seen : List String}
  {acc a : σ} {P : σ → Prop}

/-- What every member puts into a record keeps what holds of the record. -/
theorem ofMembers_keeps {members : List (Document × Document)}
    (hread : ∀ f ∈ r.fields, ∀ m ∈ members, ∀ put, f.read s m.2 = .ok put → ∀ a, P a → P (put a))
    (hacc : P acc) (h : r.ofMembers s finish seen acc members = .ok a) : P a := by
  induction members generalizing seen acc with
  | nil =>
    rw [Shape.ofMembers] at h
    obtain ⟨-, -, h⟩ := bind_eq_ok.1 h
    split at h
    · cases h
    · cases h
      exact hacc
  | cons m members ih =>
    obtain ⟨name, d⟩ := m
    have hrest := fun f hf m hm => hread f hf m (List.mem_cons_of_mem _ hm)
    rw [Shape.ofMembers] at h
    obtain ⟨k, -, h⟩ := bind_eq_ok.1 h
    split at h
    · -- the member is a field
      rename_i f hf
      dsimp only at h
      split at h
      · cases h
      obtain ⟨put, hput, h⟩ := bind_eq_ok.1 h
      exact ih hrest
        (hread f (List.mem_of_find?_eq_some hf) (name, d) (List.mem_cons_self ..) put hput _ hacc) h
    · dsimp only at h
      split at h
      · cases h
      obtain ⟨-, -, h⟩ := bind_eq_ok.1 h
      exact ih hrest hacc h

/-- So does what every item puts into it. -/
theorem ofItems_keeps {fs : List (Field σ)} {ds : List Document} {total index : Nat}
    (hread : ∀ f ∈ fs, ∀ d ∈ ds, ∀ put, f.read s d = .ok put → ∀ a, P a → P (put a))
    (hacc : P acc) (h : r.ofItems s finish total index acc fs ds = .ok a) : P a := by
  fun_induction r.ofItems s finish total index acc fs ds with
  | case1 index acc f fs d ds ih =>
    obtain ⟨put, hput, h⟩ := bind_eq_ok.1 h
    exact ih put
      (fun f hf d hd => hread f (List.mem_cons_of_mem _ hf) d (List.mem_cons_of_mem _ hd))
      (hread f (List.mem_cons_self ..) d (List.mem_cons_self ..) put hput _ hacc) h
  | case2 index acc f fs ih =>
    obtain ⟨-, -, h⟩ := bind_eq_ok.1 h
    split at h
    · exact ih (fun f _ d hd => absurd hd List.not_mem_nil) hacc h
    · cases h
  | case3 index acc =>
    obtain ⟨-, -, h⟩ := bind_eq_ok.1 h
    cases h
    exact hacc
  | case4 => cases h
  | case5 => cases h
  | case6 =>
    cases h
    exact hacc

/-- **A record that is decoded from a value** has what its fields put into it from the parts
of the value. -/
theorem record_keeps {raw : Json} (hempty : P r.empty)
    (hread : ∀ f ∈ r.fields, ∀ x ∈ raw.parts, ∀ put,
      f.read .value (.ofJson x) = .ok put → ∀ a, P a → P (put a))
    (h : decodeValue (record r) raw = .ok a) : P a := by
  have hrecord : record r .value (.ofJson raw) = .ok a := by
    unfold decodeValue at h
    split at h
    · rename_i heq
      cases h
      exact heq
    · cases h
    · cases h
  cases raw with
  | array xs =>
    refine @ofItems_keeps σ r .value .closed r.empty a P r.fields (Document.ofItems xs) _ 0
      (fun f hf d hd => ?_) hempty hrecord
    rw [ofItems_eq_map] at hd
    obtain ⟨x, hx, rfl⟩ := List.mem_map.1 hd
    exact hread f hf x hx
  | object ms =>
    refine @ofMembers_keeps σ r .value .closed [] r.empty a P (Document.ofMembers ms)
      (fun f hf m hm => ?_) hempty hrecord
    rw [ofMembers_eq_map] at hm
    obtain ⟨e, he, rfl⟩ := List.mem_map.1 hm
    exact hread f hf e.2 (List.mem_map_of_mem he)
  | null => cases hrecord
  | bool b => cases hrecord
  | number m => cases m <;> cases hrecord
  | string t => cases hrecord

/-- What a field reads is what it puts into the record. -/
theorem read_field_eq_ok {α : Type} {name : String} {presence : Presence} {item : Decoder α}
    {put : α → σ → σ} {d : Document} {g : σ → σ}
    (h : (field name presence item put).read s d = .ok g) : ∃ x, item s d = .ok x ∧ g = put x := by
  obtain ⟨x, hx, hg⟩ := bind_eq_ok.1 h
  cases hg
  exact ⟨x, hx, rfl⟩

/-! ## Reading a record -/

/-- What is read for a field is put into the record. -/
theorem read_field {α : Type} {name : String} {presence : Presence} {item : Decoder α}
    {put : α → σ → σ} {d : Document} {a : α} (h : item s d = .ok a) :
    (field name presence item put).read s d = .ok (put a) := by
  change (item s d >>= fun a => pure (put a)) = _
  rw [h]
  rfl

/-- A member with the name of a field is put into the record. -/
theorem ofMembers_member {name : String} {x : Json} {put : σ → σ}
    (hfield : r.fields.find? (fun g => g.name = name) = some f) (hseen : name ∉ seen)
    (hread : f.read s (.ofJson x) = .ok put) :
    r.ofMembers s finish seen acc (Document.ofMembers ((name, x) :: ms)) =
      r.ofMembers s finish (name :: seen) (put acc) (Document.ofMembers ms) := by
  have hnew : seen.contains name = false := by simpa using hseen
  rw [Document.ofMembers, Shape.ofMembers]
  simp only [Document.name, liftFlaw, bind, Except.bind, hfield, hread, hnew]
  rfl

/-- Behind the last member no field may be missing. -/
theorem ofMembers_closed
    (h : ∀ g ∈ r.fields, g.presence = .required → g.name ∈ seen) :
    r.ofMembers s .closed seen acc (Document.ofMembers []) = .ok acc := by
  have hall : (r.fields.find? fun g => g.presence = .required && !seen.contains g.name) = none := by
    rw [List.find?_eq_none]
    intro g hg
    by_cases hrequired : g.presence = .required
    · simp [hrequired, h g hg hrequired]
    · simp [hrequired]
  rw [Document.ofMembers, Shape.ofMembers]
  simp only [Finish.check, liftFlaw, bind, Except.bind, hall]
  rfl

/-- A setting has room for so many arrays and objects in each other. -/
def HasRoom (n : Nat) (s : Setting) : Prop := ∀ m ∈ s.nesting, n ≤ m

theorem hasRoom_value : HasRoom n .value := by simp [HasRoom, Setting.value]

theorem hasRoom_text (h : n ≤ maxNesting) : HasRoom n .text := by simpa [HasRoom, Setting.text]

/-- Where there is room an array or object is entered, -/
theorem entering_of_hasRoom {α : Type} {inside : Setting → Except DecodeError α}
    (h : HasRoom (n + 1) s) : entering s inside = inside s.inner :=
  if_neg fun hzero => absurd (h 0 (by simp [hzero])) (Nat.not_succ_le_zero n)

/-- and inside there is room for one less. -/
theorem HasRoom.inner (h : HasRoom (n + 1) s) : HasRoom n s.inner := by
  rintro m hm
  obtain ⟨m', hm', rfl⟩ := Option.map_eq_some_iff.1 hm
  exact Nat.le_pred_of_lt (h m' hm')

/-- A record in object form is read from its members. -/
theorem record_ofJson (h : HasRoom (n + 1) s) :
    record r s (.ofJson (.object ms)) =
      r.ofMembers s.inner .closed [] r.empty (Document.ofMembers ms) := by
  rw [Document.ofJson, record, entering_of_hasRoom h]

/-- A list is read when its items are. -/
theorem list_ofJson {α : Type} {item : Decoder α} {write : α → Json} {xs : List α}
    (hroom : HasRoom (n + 1) s) (h : ∀ x ∈ xs, item s.inner (.ofJson (write x)) = .ok x) :
    list item s (.ofJson (.array (xs.map write))) = .ok xs := by
  have hitems : (Document.ofItems (xs.map write)).mapM (item s.inner) = .ok xs := by
    induction xs with
    | nil => rfl
    | cons x xs ih =>
      obtain ⟨hx, hxs⟩ := List.forall_mem_cons.1 h
      rw [List.map_cons, Document.ofItems, List.mapM_cons, hx, ih hxs]
      rfl
  rw [Document.ofJson, list, entering_of_hasRoom hroom, hitems]
  rfl

/-! ## What is decoded from any document -/

section

variable {α : Type} {d : Document} {item : Decoder α} {Q : α → Prop}

/-- What is decoded inside an array or object. -/
theorem entering_eq_ok {inside : Setting → Except DecodeError α} {a : α}
    (h : entering s inside = .ok a) : inside s.inner = .ok a := by
  unfold entering at h
  split at h
  · cases h
  · exact h

/-- Entries are put into a table in order. -/
theorem sorted_entries {t t' : Table α} {members : List (Document × Document)} (ht : t.Sorted)
    (h : entries item s t members = .ok t') : t'.Sorted := by
  induction members generalizing t with
  | nil =>
    cases h
    exact ht
  | cons m members ih =>
    obtain ⟨name, d⟩ := m
    rw [entries] at h
    obtain ⟨k, -, h⟩ := bind_eq_ok.1 h
    obtain ⟨x, -, h⟩ := bind_eq_ok.1 h
    exact ih ht.insert h

/-- **A table that is decoded** is in order. -/
theorem sorted_of_table {t : Table α} (h : table item s d = .ok t) : t.Sorted := by
  unfold table at h
  split at h
  · obtain ⟨t', ht', h⟩ := bind_eq_ok.1 (entering_eq_ok h)
    obtain ⟨-, -, h⟩ := bind_eq_ok.1 h
    cases h
    exact sorted_entries .nil ht'
  · cases h

theorem forall_of_mapM {ds : List Document} {xs : List α}
    (hitem : ∀ s d x, item s d = .ok x → Q x) (h : ds.mapM (item s) = .ok xs) : ∀ x ∈ xs, Q x := by
  induction ds generalizing xs with
  | nil =>
    cases h
    simp
  | cons d ds ih =>
    rw [List.mapM_cons] at h
    obtain ⟨x, hx, h⟩ := bind_eq_ok.1 h
    obtain ⟨rest, hrest, h⟩ := bind_eq_ok.1 h
    cases h
    exact List.forall_mem_cons.2 ⟨hitem s d x hx, ih hrest⟩

/-- What holds of each item that is decoded holds of those of a list. -/
theorem forall_of_list {xs : List α} (hitem : ∀ s d x, item s d = .ok x → Q x)
    (h : list item s d = .ok xs) : ∀ x ∈ xs, Q x := by
  unfold list at h
  split at h
  · obtain ⟨ys, hys, h⟩ := bind_eq_ok.1 (entering_eq_ok h)
    obtain ⟨-, -, h⟩ := bind_eq_ok.1 h
    cases h
    exact forall_of_mapM hitem hys
  · cases h

/-- And of what may be null. -/
theorem forall_of_nullable {o : Option α} (hitem : ∀ s d x, item s d = .ok x → Q x)
    (h : nullable item s d = .ok o) : ∀ x ∈ o, Q x := by
  unfold nullable at h
  split at h
  · cases h
    simp
  · obtain ⟨x, hx, h⟩ := bind_eq_ok.1 h
    cases h
    rintro _ ⟨⟩
    exact hitem _ _ _ hx

/-- Whatever the field reads, it keeps what holds of the record. -/
def Field.Keeps (P : σ → Prop) (f : Field σ) : Prop :=
  ∀ s d put, f.read s d = .ok put → ∀ a, P a → P (put a)

theorem keeps_field {name : String} {presence : Presence} {put : α → σ → σ}
    (h : ∀ s d x, item s d = .ok x → ∀ a, P a → P (put x a)) :
    (field name presence item put).Keeps P := by
  intro s d g hg a ha
  obtain ⟨x, hx, rfl⟩ := read_field_eq_ok hg
  exact h s d x hx a ha

/-- **What all fields keep** holds of a record that is decoded. -/
theorem holds_of_record (hempty : P r.empty)
    (hfields : ∀ f ∈ r.fields, f.Keeps P) (h : record r s d = .ok a) : P a := by
  unfold record at h
  split at h
  · exact ofMembers_keeps (fun f hf m _ => hfields f hf _ m.2) hempty (entering_eq_ok h)
  · exact ofItems_keeps (fun f hf d _ => hfields f hf _ d) hempty (entering_eq_ok h)
  · cases h

end

end Decode

end Json

end Conductor
