import Conductor.Local.Runner
import Conductor.Proofs.Table
import Conductor.Proofs.Text.Entries
import Mathlib.Data.Set.Basic
import Mathlib.Tactic.Tauto
/-!
# Local backends — what instances can tell of their parameters

An instance is told the parameters of its group in one variable, a key and a value for each
with an equals sign behind the key and bars between them, and nothing is escaped. So whether
parameters can be read off the variable depends on the characters that keys and values may
have. `Alphabet.Clear` names the alphabets in which they can (`Clear.eq_of_encode`). In every
other one there are different parameters with one text (`clear_of_told`), and among all texts
there are (`not_parameters_told`).
-/

namespace Conductor

namespace Local

/-- The characters of keys and values. -/
structure Alphabet where
  key : Set Char
  value : Set Char

namespace Alphabet

variable {A : Alphabet} {t t' : Table String}

/-- Parameters of these characters. -/
structure Allows (A : Alphabet) (t : Table String) : Prop where
  sorted : t.Sorted
  key : ∀ e ∈ t, ∀ c ∈ e.1.toList, c ∈ A.key
  value : ∀ e ∈ t, ∀ c ∈ e.2.toList, c ∈ A.value

/-- The separators cannot be mistaken for what they separate. -/
inductive Clear (A : Alphabet) : Prop
  /-- Parameters are read from the left. -/
  | left (key : '=' ∉ A.key) (value : '|' ∉ A.value)
  /-- Parameters are read from the right. -/
  | right (key : '|' ∉ A.key) (value : '=' ∉ A.value)
  /-- A key shows by its characters where it begins. -/
  | apart (equals : '=' ∉ A.key) (bar : '|' ∉ A.key) (value : ∀ c ∈ A.value, c ∉ A.key)

/-! ## Reading parameters -/

/-- A parameter as an entry. -/
def entryOf (e : String × String) : List Char × List Char := Text.entryOf e.1 e.2

theorem entryOf_injective : Function.Injective entryOf :=
  fun _ _ h => Prod.ext_iff.2 (Text.entryOf_inj.1 h)

/-- With a bar behind them parameters are entries. -/
theorem toList_encode (h : t ≠ []) :
    (encodeParameters t).toList ++ ['|'] = Text.entries '=' '|' (t.map entryOf) := by
  induction t with
  | nil => exact absurd rfl h
  | cons e t ih =>
    cases t with
    | nil => simp [encodeParameters, entryOf, Text.entryOf]
    | cons e' t =>
      rw [List.map_cons, Text.entries_cons, ← ih (List.cons_ne_nil _ _)]
      simp [encodeParameters, entryOf, Text.entryOf]

/-- The text of parameters is empty only if there are none. -/
theorem encode_eq_empty : encodeParameters t = "" ↔ t = [] := by
  refine ⟨fun heq => ?_, fun heq => by rw [heq]; rfl⟩
  by_contra hne
  obtain ⟨e, rest, rfl⟩ := List.exists_cons_of_ne_nil hne
  have hchars := toList_encode hne
  rw [heq, List.map_cons, Text.entries_cons] at hchars
  have hmem : '=' ∈ "".toList ++ ['|'] := by
    rw [hchars]
    exact List.mem_append_right _ List.mem_cons_self
  simp at hmem

/-- Parameters with one text have the same entries with a bar behind each. -/
theorem entries_of_encode (heq : encodeParameters t = encodeParameters t') :
    Text.entries '=' '|' (t.map entryOf) = Text.entries '=' '|' (t'.map entryOf) := by
  by_cases hnil : t = []
  · obtain rfl : t' = [] := encode_eq_empty.1 (heq ▸ encode_eq_empty.2 hnil)
    rw [hnil]
  · have hnil' : t' ≠ [] := fun h => hnil (encode_eq_empty.1 (heq.trans (encode_eq_empty.2 h)))
    rw [← toList_encode hnil, ← toList_encode hnil', heq]

/-- Only the first of the parameters can have the empty key. -/
theorem key_ne_nil (h : t.Sorted) : ∀ e ∈ t.tail, e.1.toList ≠ [] := by
  intro e he hnil
  obtain ⟨first, rest, rfl⟩ :=
    List.exists_cons_of_ne_nil (List.ne_nil_of_mem (List.mem_of_mem_tail he))
  have hlt := String.lt_iff_toList_lt.1 (h.head_lt he)
  rw [hnil] at hlt
  exact absurd hlt (List.not_lt_nil _)

/-- **In a clear alphabet the text of parameters tells them.** -/
theorem Clear.eq_of_encode (hA : A.Clear) (h : A.Allows t) (h' : A.Allows t')
    (heq : encodeParameters t = encodeParameters t') : t = t' := by
  refine List.map_injective_iff.2 entryOf_injective ?_
  have hentries := entries_of_encode heq
  cases hA with
  | left hkey hvalue =>
    have hparts : ∀ {t}, A.Allows t → ∀ e ∈ t.map entryOf, '=' ∉ e.1 ∧ '|' ∉ e.2 :=
      fun h => List.forall_mem_map.2 fun e he =>
        ⟨mt (h.key e he _) hkey, mt (h.value e he _) hvalue⟩
    exact Text.entries_of_left (hparts h) (hparts h') hentries
  | right hkey hvalue =>
    have hparts : ∀ {t}, A.Allows t → ∀ e ∈ t.map entryOf, '|' ∉ e.1 ∧ '=' ∉ e.2 :=
      fun h => List.forall_mem_map.2 fun e he =>
        ⟨mt (h.key e he _) hkey, mt (h.value e he _) hvalue⟩
    exact Text.entries_of_right (hparts h) (hparts h') hentries
  | apart hequals hbar hvalue =>
    have hparts : ∀ {t}, A.Allows t → ∀ e ∈ t.map entryOf,
        (∀ c ∈ e.1, c ∈ A.key) ∧ ∀ c ∈ e.2, c ∉ A.key :=
      fun h => List.forall_mem_map.2 fun e he =>
        ⟨h.key e he, fun c hc => hvalue c (h.value e he c hc)⟩
    have hkeys : ∀ {t : Table String}, t.Sorted → ∀ e ∈ (t.map entryOf).tail, e.1 ≠ [] :=
      fun h => List.map_tail ▸ List.forall_mem_map.2 (key_ne_nil h)
    exact Text.entries_of_apart hequals hbar (hparts h) (hparts h') (hkeys h.sorted)
      (hkeys h'.sorted) hentries

/-! ## Misreadings -/

/-- The ways in which the text of some parameters is read as that of others. -/
inductive Misreading
  /-- A key ends at a later equals sign. -/
  | laterEquals
  /-- A value ends at a later bar. -/
  | laterBar
  /-- A key is a parameter and a key. -/
  | longKey
  /-- A value is a value and a parameter, with this character for its key. -/
  | longValue (c : Char)

namespace Misreading

/-- The parameters whose text is misread. -/
def written : Misreading → Table String
  | laterEquals => [("=", "")]
  | laterBar => [("", "|"), ("|", "")]
  | longKey => [("=|=", "")]
  | longValue c => [("", String.ofList ['|', c, '='])]

/-- The parameters that it is read as. -/
def read : Misreading → Table String
  | laterEquals => [("", "=")]
  | laterBar => [("", ""), ("||", "")]
  | longKey => [("", ""), ("=", "")]
  | longValue c => [("", ""), (String.ofList [c], "")]

/-- What an alphabet must have for the misreading. -/
def Possible (A : Alphabet) : Misreading → Prop
  | laterEquals => '=' ∈ A.key ∧ '=' ∈ A.value
  | laterBar => '|' ∈ A.key ∧ '|' ∈ A.value
  | longKey => '=' ∈ A.key ∧ '|' ∈ A.key
  | longValue c => c ∈ A.key ∧ c ∈ A.value ∧ '|' ∈ A.value ∧ '=' ∈ A.value

/-- The text says nothing of the difference. -/
theorem encode_eq (m : Misreading) : encodeParameters m.written = encodeParameters m.read := by
  cases m <;> simp [encodeParameters, written, read, ← String.toList_inj]

theorem written_ne_read (m : Misreading) : m.written ≠ m.read := by
  cases m <;> simp [written, read]

theorem sorted (m : Misreading) : m.written.Sorted ∧ m.read.Sorted := by
  have hone : ∀ e : String × String, Table.Sorted [e] := fun e => List.pairwise_singleton _ e
  -- the empty key comes in front of every other
  have htwo : ∀ k v v' : String, k ≠ "" → Table.Sorted [("", v), (k, v')] := by
    intro k v v' hne
    refine List.pairwise_pair.2 (String.lt_iff_toList_lt.2 ?_)
    obtain ⟨c, cs, hk⟩ := List.exists_cons_of_ne_nil (mt String.toList_eq_nil_iff.1 hne)
    rw [hk]
    exact List.nil_lt_cons c cs
  cases m with
  | laterEquals => exact ⟨hone _, hone _⟩
  | laterBar => exact ⟨htwo _ _ _ (by decide), htwo _ _ _ (by decide)⟩
  | longKey => exact ⟨hone _, htwo _ _ _ (by decide)⟩
  | longValue c => exact ⟨hone _, htwo _ _ _ (by simp)⟩

/-- An alphabet in which the misreading is possible allows the parameters of both. -/
theorem Possible.allows {m : Misreading} (h : m.Possible A) :
    A.Allows m.written ∧ A.Allows m.read := by
  -- each character of the parameters is one that the misreading asks for
  refine ⟨⟨m.sorted.1, ?_, ?_⟩, ⟨m.sorted.2, ?_, ?_⟩⟩ <;> cases m <;> simp only [Possible] at h <;>
    simp [written, read] <;> grind

end Misreading

theorem clear_of_not_possible (h : ∀ m : Misreading, ¬ m.Possible A) : A.Clear := by
  have hequals := h .laterEquals
  have hbar := h .laterBar
  have hkey := h .longKey
  have hvalue (c : Char) := h (.longValue c)
  simp only [Misreading.Possible] at hequals hbar hkey hvalue
  by_cases hleft : '=' ∉ A.key ∧ '|' ∉ A.value
  · exact .left hleft.1 hleft.2
  by_cases hright : '|' ∉ A.key ∧ '=' ∉ A.value
  · exact .right hright.1 hright.2
  -- values have both separators, so keys have neither
  have hmarks : '=' ∉ A.key ∧ '|' ∉ A.key ∧ '|' ∈ A.value ∧ '=' ∈ A.value := by tauto
  obtain ⟨hk, hk', hv, hv'⟩ := hmarks
  exact .apart hk hk' fun c hc hmem => hvalue c ⟨hmem, hc, hv, hv'⟩

/-- **In every other alphabet different parameters have one text.** -/
theorem clear_of_told (h : ∀ t t', A.Allows t → A.Allows t' →
    encodeParameters t = encodeParameters t' → t = t') : A.Clear :=
  clear_of_not_possible fun m hm =>
    m.written_ne_read (h m.written m.read hm.allows.1 hm.allows.2 m.encode_eq)

end Alphabet

/-- **What instances can tell of their parameters.** Whatever the configuration sets, the
variable holds the text of the parameters of the group. And for every set of characters that
keys may have, and every set that values may have, this text tells parameters apart exactly
if keys have no equals sign and values no bar, or keys have no bar and values no equals sign,
or keys have neither and no character in common with values. -/
theorem parameters_told_iff :
    (∀ (input : RunInput) (g : RunGroup) (config : RunnerConfig) (outputs : String),
      (environment input g config outputs).get? "TEST_INSTANCE_PARAMS" =
        some (encodeParameters g.parameters)) ∧
    ∀ A : Alphabet, (∀ t t', A.Allows t → A.Allows t' →
      encodeParameters t = encodeParameters t' → t = t') ↔ A.Clear := by
  refine ⟨fun input g config outputs => ?_, fun A => ⟨Alphabet.clear_of_told, ?_⟩⟩
  · -- the parameters are the last of the variables but one
    rw [environment, Table.get?_insert_of_ne (by decide)]
    exact Table.get?_insert_self
  · exact fun hA t t' h h' heq => hA.eq_of_encode h h' heq

/-- **Parameters may be told alike**: it is not so that different parameters have different
texts. -/
theorem not_parameters_told : ¬ ∀ t t' : Table String, t.Sorted → t'.Sorted →
    encodeParameters t = encodeParameters t' → t = t' := by
  intro h
  have heq := h [("a", "1|b=2")] [("a", "1"), ("b", "2")] (by simp [Table.Sorted])
    (by unfold Table.Sorted; decide) (by decide)
  exact absurd heq (by decide)

end Local

end Conductor
