import Conductor.Proofs.Json.Text
/-!
# JSON — texts within texts

A semicolon stands in the text of a value only within a string. So what follows a
semicolon, as far as the end of the text, is never the text of a value itself: read
from within a string, the quotation marks of such a text open what they should close
(`Mode.not_both`). That makes the text of a value safe behind a separator that begins
with a semicolon (`chars_ne_behind_semicolon`).
-/

namespace Conductor

namespace Json

/-- Where in a text a character stands. -/
inductive Mode
  | outside
  /-- Within a string. -/
  | inside
  /-- Behind a backslash in a string. -/
  | escaped
  deriving DecidableEq

/-- Where the next character stands. Outside of strings there is neither a backslash
nor a semicolon. -/
def Mode.next (m : Mode) (c : Char) : Option Mode :=
  match m with
  | .outside =>
    if c = '"' then some .inside else if c = '\\' ∨ c = ';' then none else some .outside
  | .inside => if c = '"' then some .outside else if c = '\\' then some .escaped else some .inside
  | .escaped => some .inside

/-- Where the end of a text stands. -/
def Mode.scan (m : Mode) (cs : List Char) : Option Mode := cs.foldlM Mode.next m

namespace Mode

variable {m m' : Mode} {cs ds : List Char}

theorem scan_append : m.scan (cs ++ ds) = (m.scan cs).bind (·.scan ds) :=
  List.foldlM_append ..

theorem scan_cons {c : Char} : m.scan (c :: cs) = (m.next c).bind (·.scan cs) :=
  List.foldlM_cons ..

/-- Going on from where a text ended. -/
theorem scan_append_of (h : m.scan cs = some m') : m.scan (cs ++ ds) = m'.scan ds := by
  rw [scan_append, h]
  rfl

/-- Characters that mean nothing leave everything as it is. -/
theorem scan_plain (h : ∀ c ∈ cs, c ∉ ['"', '\\', ';']) :
    outside.scan cs = some .outside ∧ inside.scan cs = some .inside := by
  induction cs with
  | nil => exact ⟨rfl, rfl⟩
  | cons c cs ih =>
    obtain ⟨ho, hi⟩ := ih fun d hd => h d (List.mem_cons_of_mem c hd)
    have hc := h c (List.mem_cons_self ..)
    simp only [List.mem_cons, List.not_mem_nil, or_false, not_or] at hc
    rw [scan_cons, scan_cons]
    simp only [next, hc, if_false, or_self]
    exact ⟨ho, hi⟩

/-- **No text ends outside of strings** both when it begins outside of them and when it
begins within one. -/
theorem not_both (ho : outside.scan cs = some .outside) : inside.scan cs ≠ some .outside := by
  induction cs with
  | nil => simp [scan]
  | cons c cs ih =>
    intro hi
    rw [scan_cons] at ho hi
    unfold next at ho hi
    dsimp only at ho hi
    by_cases hquote : c = '"'
    · -- what was outside is within, and the other way round
      rw [if_pos hquote] at ho hi
      exact ih hi ho
    · rw [if_neg hquote] at ho hi
      by_cases hbar : c = '\\' ∨ c = ';'
      · rw [if_pos hbar] at ho
        cases ho
      · rw [if_neg hbar] at ho
        rw [if_neg fun h => hbar (.inl h)] at hi
        exact ih ho hi

/-! ## The texts of values -/

/-- A string is read to its end. -/
theorem scan_escapeChar (c : Char) : inside.scan (escapeChar c) = some .inside := by
  have hspecials : ∀ c ∈ specials, inside.scan (escapeChar c) = some .inside := by
    have hall : specials.all (fun c => inside.scan (escapeChar c) = some .inside) = true := by
      decide +kernel
    simpa only [List.all_eq_true, decide_eq_true_eq] using hall
  by_cases hc : c ∈ specials
  · exact hspecials c hc
  · rw [escapeChar_other hc]
    have hquote : c ≠ '"' := by
      rintro rfl
      exact hc (by decide +kernel)
    have hslash : c ≠ '\\' := by
      rintro rfl
      exact hc (by decide +kernel)
    rw [scan_cons]
    simp only [next, hquote, hslash, if_false]
    rfl

theorem scan_stringChars (s : String) : outside.scan (stringChars s) = some .outside := by
  have hbody : ∀ cs : List Char, inside.scan (cs.flatMap escapeChar) = some .inside := by
    intro cs
    induction cs with
    | nil => rfl
    | cons c cs ih => rw [List.flatMap_cons, scan_append_of (scan_escapeChar c), ih]
  unfold stringChars
  rw [List.cons_append, scan_cons]
  change inside.scan _ = _
  rw [scan_append_of (hbody _)]
  rfl

theorem scan_number {n : Number} (h : n.IsFinite) : outside.scan n.text.toList = some .outside := by
  refine (scan_plain fun c hc => ?_).1
  rcases Number.text_chars h c hc with hdigit | hmark
  · intro hmem
    simp only [List.mem_cons, List.not_mem_nil, or_false] at hmem
    rcases hmem with rfl | rfl | rfl <;> cases hdigit
  · simp only [List.mem_cons, List.not_mem_nil, or_false] at hmark
    rcases hmark with rfl | rfl | rfl | rfl <;> decide

end Mode

open Mode

mutual

/-- **The text of a value** begins and ends outside of strings. -/
theorem scan_chars (v : Json) (h : v.IsFinite) : outside.scan v.chars = some .outside := by
  match v with
  | .null => rw [chars]; rfl
  | .bool true => rw [chars]; rfl
  | .bool false => rw [chars]; rfl
  | .number n =>
    rw [chars]
    exact scan_number (number_isFinite h)
  | .string s =>
    rw [chars]
    exact scan_stringChars s
  | .array [] => rw [chars]; rfl
  | .array (x :: items) =>
    simp only [IsFinite, ItemsFinite] at h
    rw [chars, scan_cons]
    change outside.scan _ = _
    rw [scan_append_of (scan_chars x h.1)]
    exact scan_itemsChars items h.2
  | .object [] => rw [chars]; rfl
  | .object ((k, x) :: members) =>
    simp only [IsFinite, MembersFinite] at h
    rw [chars, scan_cons]
    change outside.scan _ = _
    rw [scan_append_of (scan_stringChars k), scan_cons]
    change outside.scan _ = _
    rw [scan_append_of (scan_chars x h.1)]
    exact scan_membersChars members h.2

/-- So do the items after the first one. -/
theorem scan_itemsChars (items : List Json) (h : ItemsFinite items) :
    outside.scan (itemsChars items) = some .outside := by
  match items with
  | [] => rw [itemsChars]; rfl
  | x :: items =>
    simp only [ItemsFinite] at h
    rw [itemsChars, scan_cons]
    change outside.scan _ = _
    rw [scan_append_of (scan_chars x h.1)]
    exact scan_itemsChars items h.2

/-- So do the members after the first one. -/
theorem scan_membersChars (members : List (String × Json)) (h : MembersFinite members) :
    outside.scan (membersChars members) = some .outside := by
  match members with
  | [] => rw [membersChars]; rfl
  | (k, x) :: members =>
    simp only [MembersFinite] at h
    rw [membersChars, scan_cons]
    change outside.scan _ = _
    rw [scan_append_of (scan_stringChars k), scan_cons]
    change outside.scan _ = _
    rw [scan_append_of (scan_chars x h.1)]
    exact scan_membersChars members h.2

end

/-- **No text of a value stands behind a semicolon** at the end of another, with nothing
but plain characters between. -/
theorem chars_ne_behind_semicolon {v w : Json} (hv : v.IsFinite) (hw : w.IsFinite)
    {rest label : List Char} (hlabel : ∀ c ∈ label, c ∉ ['"', '\\', ';']) :
    v.chars ≠ rest ++ ';' :: (label ++ w.chars) := by
  intro h
  have hscan := scan_chars v hv
  rw [h, scan_append] at hscan
  obtain ⟨m, -, hm⟩ := Option.bind_eq_some_iff.1 hscan
  rw [scan_cons] at hm
  obtain ⟨m', hm', hscan⟩ := Option.bind_eq_some_iff.1 hm
  obtain rfl : m' = .inside := by
    cases m with
    | outside => cases hm'
    | inside => exact (Option.some.inj hm').symm
    | escaped => exact (Option.some.inj hm').symm
  rw [scan_append_of (scan_plain hlabel).2] at hscan
  exact not_both (scan_chars w hw) hscan

end Json

end Conductor
