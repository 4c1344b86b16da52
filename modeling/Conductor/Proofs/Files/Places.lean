import Conductor.Files.Tree
import Conductor.Proofs.Text.Splitting
import Mathlib.Data.Set.Finite.Basic
/-!
# Files — where paths lead

Without links a path leads from a place to a place by its parts alone: a name goes down,
two dots go up, one dot stays, and a slash in front starts at the root. To join two paths
is to follow one after the other (`leadsTo_join`), whatever the second one is.

So a path stays below a place only if it never goes up further than it has come down. Then
it leads to the place with what is left of it (`below?`) behind (`leadsTo_of_below`);
otherwise it leaves the place, and where the last name of the place is none of its parts, it
does not come back (`not_prefix_of_below`).
-/

namespace Conductor

namespace Path

open FileTree (Place)

variable {path base part s : String} {place root q : Place} {ps : List String}

/-- Where a part leads from a place. -/
def enter (place : Place) (part : String) : Place :=
  if part = "." then place else if part = ".." then place.dropLast else place ++ [part]

/-- Where a path leads from a place. -/
def leadsTo (place : Place) (path : String) : Place :=
  (parts path).foldl enter (if isAbsolute path then [] else place)

/-- A text that is the name of something in a directory. -/
structure IsName (s : String) : Prop where
  ne_empty : s ≠ ""
  no_slash : '/' ∉ s.toList
  ne_dot : s ≠ "."
  ne_dots : s ≠ ".."

/-! ## Parts -/

theorem parts_eq (path : String) :
    parts path = ((path.toList.splitOn '/').map String.ofList).filter (· ≠ "") := by
  rw [parts, ← Text.splitOn_char]

/-- Parts on the two sides of a slash. -/
theorem parts_slash (base part : String) :
    parts (base ++ "/" ++ part) = parts base ++ parts part := by
  have hchars : (base ++ "/" ++ part).toList = base.toList ++ '/' :: part.toList := by simp
  rw [parts_eq, hchars, List.splitOn_append_cons_self, List.map_append, List.filter_append,
    ← parts_eq, ← parts_eq]

theorem parts_of_no_slash (hne : s ≠ "") (h : '/' ∉ s.toList) : parts s = [s] := by
  simp [parts_eq, List.splitOn_eq_singleton h, hne]

theorem parts_empty : parts "" = [] := by simp [parts_eq]

/-- A slash at the end adds no part. -/
theorem parts_close (base : String) : parts (base ++ "/") = parts base := by
  have hslash := parts_slash base ""
  rwa [String.append_empty, parts_empty, List.append_nil] at hslash

theorem parts_append_slashes (base : String) (k : Nat) :
    parts (base ++ String.ofList (List.replicate k '/')) = parts base := by
  induction k with
  | zero => rw [List.replicate_zero, String.ofList_nil, String.append_empty]
  | succ k ih =>
    rw [List.replicate_succ', String.ofList_append, ← String.append_assoc, ← ih]
    exact parts_close _

/-- A slash at the end of the first path takes the place of one between the two. -/
theorem parts_append_of_closed (h : base.toList.getLast? = some '/') :
    parts (base ++ part) = parts base ++ parts part := by
  obtain ⟨xs, hxs⟩ := List.getLast?_eq_some_iff.1 h
  obtain rfl : base = String.ofList xs ++ "/" := String.toList_injective (by simpa using hxs)
  rw [parts_close, parts_slash]

/-- The parts of two paths that are joined, unless the second one starts at the root. -/
theorem parts_join (h : ¬ isAbsolute part) : parts (join base part) = parts base ++ parts part := by
  rw [join, if_neg h]
  split
  · rename_i hbase
    rcases Bool.or_eq_true _ _ ▸ hbase with hempty | hclosed
    · obtain rfl : base = "" := by simpa using hempty
      rw [String.empty_append, parts_empty, List.nil_append]
    · exact parts_append_of_closed (of_decide_eq_true hclosed)
  · exact parts_slash base part

/-- Two paths that are joined start at the root if one of them does. -/
theorem isAbsolute_join : isAbsolute (join base part) = (isAbsolute part || isAbsolute base) := by
  unfold join
  split
  · rename_i h
    simp [h]
  · rename_i h
    have hpart : isAbsolute part = false := by simpa using h
    rw [hpart, Bool.false_or]
    by_cases hbase : base = ""
    · subst hbase
      simpa [isAbsolute] using hpart
    · obtain ⟨c, cs, hchars⟩ := List.exists_cons_of_ne_nil (mt String.toList_eq_nil_iff.1 hbase)
      split <;> simp [isAbsolute, hchars]

/-- **To join two paths is to follow one after the other.** -/
theorem leadsTo_join : leadsTo place (join base part) = leadsTo (leadsTo place base) part := by
  by_cases hpart : isAbsolute part
  · -- a part that starts at the root replaces the base
    rw [join, if_pos hpart, leadsTo, leadsTo, if_pos hpart, if_pos hpart]
  · have habsolute : isAbsolute (join base part) = isAbsolute base := by
      rw [isAbsolute_join, Bool.eq_false_iff.2 hpart, Bool.false_or]
    rw [leadsTo, parts_join hpart, List.foldl_append, habsolute, leadsTo, if_neg hpart, leadsTo]

theorem leadsTo_root : leadsTo [] path = (parts path).foldl enter [] := by
  rw [leadsTo, ite_self]

theorem IsName.not_isAbsolute (h : IsName s) : ¬ isAbsolute s := fun hhead =>
  h.no_slash (List.mem_of_head? (of_decide_eq_true hhead))

/-- A name goes down by itself. -/
theorem leadsTo_of_isName (h : IsName s) : leadsTo place s = place ++ [s] := by
  rw [leadsTo, if_neg h.not_isAbsolute, parts_of_no_slash h.ne_empty h.no_slash, List.foldl_cons,
    List.foldl_nil, enter, if_neg h.ne_dot, if_neg h.ne_dots]

/-! ## Staying below a place -/

/-- Goes on below a place, unless that leads out of it. -/
def descend : Option Place → String → Option Place
  | none, _ => none
  | some q, part => if part = ".." ∧ q = [] then none else some (enter q part)

/-- Where a path leads below a place, if it does not lead out of it. -/
def below? (path : String) : Option Place :=
  if isAbsolute path then none else (parts path).foldl descend (some [])

theorem below?_of_isName (h : IsName s) : below? s = some [s] := by
  rw [below?, if_neg h.not_isAbsolute, parts_of_no_slash h.ne_empty h.no_slash]
  simp [descend, enter, h.ne_dot, h.ne_dots]

theorem foldl_descend_none : ps.foldl descend none = none := by
  induction ps with
  | nil => rfl
  | cons p ps ih => exact ih

theorem enter_append (h : ¬ (part = ".." ∧ q = [])) :
    enter (root ++ q) part = root ++ enter q part := by
  unfold enter
  split
  · rfl
  split
  · rename_i hdots
    exact List.dropLast_append_of_ne_nil fun hnil => h ⟨hdots, hnil⟩
  · exact List.append_assoc ..

theorem foldl_enter_of_descend {q' : Place} (h : ps.foldl descend (some q) = some q') :
    ps.foldl enter (root ++ q) = root ++ q' := by
  induction ps generalizing q with
  | nil => rw [Option.some.inj h]; rfl
  | cons p ps ih =>
    rw [List.foldl_cons, descend] at h
    split at h
    · rw [foldl_descend_none] at h
      cases h
    · rename_i hdown
      rw [List.foldl_cons, enter_append hdown, ih h]

/-- **A path that stays below leads to the same below every place.** -/
theorem leadsTo_of_below (h : below? path = some q) : leadsTo root path = root ++ q := by
  unfold below? at h
  split at h
  · cases h
  · rename_i habsolute
    have hplace : (parts path).foldl enter (root ++ []) = root ++ q := foldl_enter_of_descend h
    rw [List.append_nil] at hplace
    rw [leadsTo, if_neg habsolute, hplace]

/-- Outside of a place one stays, as long as one does not take its last name. -/
theorem not_prefix_enter {r : String} (h : ¬ root ++ [r] <+: q) (hr : part ≠ r) :
    ¬ root ++ [r] <+: enter q part := by
  unfold enter
  split
  · exact h
  split
  · exact fun hwithin => h (hwithin.trans (List.dropLast_prefix q))
  · intro hwithin
    rcases List.prefix_concat_iff.1 hwithin with heq | hwithin
    · exact hr (List.singleton_inj.1 (List.append_inj_right' heq rfl)).symm
    · exact h hwithin

theorem not_prefix_foldl_enter {r : String} (h : ¬ root ++ [r] <+: q) (hr : r ∉ ps) :
    ¬ root ++ [r] <+: ps.foldl enter q := by
  induction ps generalizing q with
  | nil => exact h
  | cons p ps ih =>
    rw [List.mem_cons, not_or] at hr
    exact ih (not_prefix_enter h (Ne.symm hr.1)) hr.2

theorem not_prefix_of_descend {r : String} (h : ps.foldl descend (some q) = none) (hr : r ∉ ps) :
    ¬ root ++ [r] <+: ps.foldl enter (root ++ [r] ++ q) := by
  induction ps generalizing q with
  | nil => cases h
  | cons p ps ih =>
    rw [List.mem_cons, not_or] at hr
    rw [List.foldl_cons, descend] at h
    rw [List.foldl_cons]
    split at h
    · -- this is where the path goes out of the place
      rename_i hup
      obtain ⟨rfl, rfl⟩ := hup
      refine not_prefix_foldl_enter (fun hwithin => ?_) hr.2
      have hlength := hwithin.length_le
      simp [enter] at hlength
    · rename_i hdown
      rw [enter_append hdown]
      exact ih h hr.2

/-- **A path that does not stay below a place leads out of it**, if the last name of the
place is none of its parts. -/
theorem not_prefix_of_below {r : String} (h : below? path = none) (hr : r ∉ parts path) :
    ¬ root ++ [r] <+: leadsTo (root ++ [r]) path := by
  unfold below? at h
  unfold leadsTo
  split at h
  · rename_i habsolute
    rw [if_pos habsolute]
    exact not_prefix_foldl_enter (by simp) hr
  · rename_i habsolute
    rw [if_neg habsolute]
    have hout : ¬ root ++ [r] <+: (parts path).foldl enter (root ++ [r] ++ []) :=
      not_prefix_of_descend h hr
    rwa [List.append_nil] at hout

/-- There is always another name. -/
theorem exists_isName_not_mem (ps : List String) : ∃ r, IsName r ∧ r ∉ ps := by
  let name (n : Nat) : String := String.ofList (List.replicate (n + 1) 'x')
  have hinjective : Function.Injective name := fun n m h => by
    simpa [name] using congrArg String.length h
  obtain ⟨n, hn⟩ : ∃ n, name n ∉ ps := by
    by_contra! hall
    exact Set.infinite_range_of_injective hinjective
      (ps.finite_toSet.subset (Set.range_subset_iff.2 hall))
  have hchars : ∀ c ∈ (name n).toList, c = 'x' := by
    intro c hc
    rw [String.toList_ofList] at hc
    exact List.eq_of_mem_replicate hc
  refine ⟨name n, ⟨?_, ?_, ?_, ?_⟩, hn⟩
  · simp [name]
  · exact fun hc => absurd (hchars _ hc) (by decide)
  · exact fun heq => absurd (hchars '.' (by simp [heq])) (by decide)
  · exact fun heq => absurd (hchars '.' (by simp [heq])) (by decide)

end Path

end Conductor
