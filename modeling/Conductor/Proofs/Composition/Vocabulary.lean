import Conductor.Proofs.Composition.Key
import Conductor.Proofs.Text.Entries
import Mathlib.Data.Set.Basic
/-!
# Compositions — vocabularies in which requests can be told apart

The key of a group's requests puts selectors, modules and versions between
separators without escaping them. So whether the requests can be read off the key
depends on what they are made of: on the characters of selectors, modules and
versions, and on whether a selector may be empty. `Vocabulary.Clear` names the
vocabularies in which they can (`Clear.agrees`); in every other one there are two
requests with one key that do not ask for the same build (`clear_of_agrees`).
-/

namespace Conductor

/-- The requests ask for the same build: for the same set of selectors, and for the same
version of each module. -/
def BuildOptions.Agrees (b b' : BuildOptions) : Prop :=
  (∀ s, s ∈ b.selectors ↔ s ∈ b'.selectors) ∧ b.versions = b'.versions

instance (b b' : BuildOptions) : Decidable (b.Agrees b') :=
  decidable_of_iff (sortDistinct b.selectors = sortDistinct b'.selectors ∧ b.versions = b'.versions)
    (and_congr_left' sortDistinct_eq_iff)

/-- What requests are made of. -/
structure Vocabulary where
  /-- A selector may be empty. -/
  emptySelector : Prop
  selector : Set Char
  package : Set Char
  version : Set Char

namespace Vocabulary

open BuildOptions

/-- The requests are made of the vocabulary. -/
structure Allows (V : Vocabulary) (b : BuildOptions) : Prop where
  emptySelector : "" ∈ b.selectors → V.emptySelector
  selector : ∀ s ∈ b.selectors, ∀ c ∈ s.toList, c ∈ V.selector
  package : ∀ d ∈ b.dependencies, ∀ c ∈ d.package.toList, c ∈ V.package
  version : ∀ d ∈ b.dependencies, ∀ c ∈ d.version.toList, c ∈ V.version

/-- The separators cannot be mistaken for what they separate. -/
structure Clear (V : Vocabulary) : Prop where
  /-- No selectors at all are not one empty selector. -/
  emptySelector : ¬ V.emptySelector
  comma : ',' ∉ V.selector
  /-- Entries are read from the left or from the right. -/
  entries : (':' ∉ V.package ∧ '|' ∉ V.version) ∨ (':' ∉ V.version ∧ '|' ∉ V.package)
  /-- The text between selectors and dependencies is not in both: for a version to hold it,
  a colon and the end of an entry must be found around it. -/
  boundary : ¬ ((∀ c ∈ label, c ∈ V.selector) ∧
    ((∀ c ∈ label, c ∈ V.package) ∨
      (∀ c ∈ label, c ∈ V.version) ∧ ':' ∈ V.selector ∧ (':' ∈ V.version ∨ '|' ∈ V.package)))

variable {V : Vocabulary} {b b' : BuildOptions} {ds ds' : List Dependency}

/-! ## Reading dependencies -/

/-- A dependency as an entry. -/
def entryOf (d : Dependency) : List Char × List Char := Text.entryOf d.package d.version

theorem entryOf_injective : Function.Injective entryOf := by
  intro d d' h
  rw [Dependency.mk.injEq]
  exact Text.entryOf_inj.1 h

theorem dependencyChars_eq : dependencyChars ds = Text.entries ':' '|' (ds.map entryOf) := by
  rw [Text.entries, List.flatMap_map]
  rfl

/-- A character that modules do not have is in no module of the key. -/
theorem Allows.package_not_mem (h : V.Allows b) {c : Char} (hc : c ∉ V.package) :
    ∀ d ∈ b.sortedDependencies, c ∉ d.package.toList :=
  fun d hd => mt (h.package d (mem_sortedDependencies.1 hd) c) hc

theorem Allows.version_not_mem (h : V.Allows b) {c : Char} (hc : c ∉ V.version) :
    ∀ d ∈ b.sortedDependencies, c ∉ d.version.toList :=
  fun d hd => mt (h.version d (mem_sortedDependencies.1 hd) c) hc

/-- In a clear vocabulary the text of the dependencies tells them. -/
theorem Clear.dependencies_eq (hV : V.Clear) (h : V.Allows b) (h' : V.Allows b')
    (heq : dependencyChars b.sortedDependencies = dependencyChars b'.sortedDependencies) :
    b.sortedDependencies = b'.sortedDependencies := by
  refine List.map_injective_iff.2 entryOf_injective ?_
  rw [dependencyChars_eq, dependencyChars_eq] at heq
  rcases hV.entries with ⟨hp, hv⟩ | ⟨hv, hp⟩
  · exact Text.entries_of_left
      (List.forall_mem_map.2 fun d hd => ⟨h.package_not_mem hp d hd, h.version_not_mem hv d hd⟩)
      (List.forall_mem_map.2 fun d hd => ⟨h'.package_not_mem hp d hd, h'.version_not_mem hv d hd⟩)
      heq
  · exact Text.entries_of_right
      (List.forall_mem_map.2 fun d hd => ⟨h.package_not_mem hp d hd, h.version_not_mem hv d hd⟩)
      (List.forall_mem_map.2 fun d hd => ⟨h'.package_not_mem hp d hd, h'.version_not_mem hv d hd⟩)
      heq

/-! ## Reading selectors -/

/-- In a clear vocabulary the text of the selectors tells them. -/
theorem Clear.selectors_eq (hV : V.Clear) (h : V.Allows b) (h' : V.Allows b')
    (heq : b.selectorChars = b'.selectorChars) (s : String) :
    s ∈ b.selectors ↔ s ∈ b'.selectors := by
  have hcomma : ∀ {b : BuildOptions}, V.Allows b →
      ∀ p ∈ (sortDistinct b.selectors).map String.toList, ',' ∉ p := by
    intro b h p hp
    obtain ⟨s, hs, rfl⟩ := List.mem_map.1 hp
    exact mt (h.selector s (mem_sortDistinct.1 hs) _) hV.comma
  have hne : ∀ {b : BuildOptions}, V.Allows b →
      ∀ p ∈ (sortDistinct b.selectors).map String.toList, p ≠ [] := by
    intro b h p hp hnil
    obtain ⟨s, hs, rfl⟩ := List.mem_map.1 hp
    obtain rfl : s = "" := String.toList_injective hnil
    exact hV.emptySelector (h.emptySelector (mem_sortDistinct.1 hs))
  have hparts := Text.join_injective (hcomma h) (hcomma h') (hne h) (hne h') heq
  have hsorted := List.map_injective_iff.2 (fun _ _ => String.toList_injective) hparts
  rw [← mem_sortDistinct, hsorted, mem_sortDistinct]

/-! ## Where the selectors end -/

/-- A label found among the selectors lies in one of them. -/
theorem Allows.label_in_selectors (h : V.Allows b) {xs ys : List Char}
    (heq : b.selectorChars = xs ++ (label ++ ys)) : ∀ c ∈ label, c ∈ V.selector := by
  obtain ⟨p, hp, hsub⟩ := Text.marker_in_join (by decide) (by decide) heq
  obtain ⟨s, hs, rfl⟩ := List.mem_map.1 hp
  exact fun c hc => h.selector s (mem_sortDistinct.1 hs) c (hsub hc)

/-- A character of the selectors that is no comma lies in one of them. -/
theorem Allows.mem_selectors (h : V.Allows b) {c : Char} (hc : c ∈ b.selectorChars)
    (hne : c ≠ ',') : c ∈ V.selector := by
  rcases Text.mem_join hc with rfl | ⟨p, hp, hcp⟩
  · exact absurd rfl hne
  · obtain ⟨s, hs, rfl⟩ := List.mem_map.1 hp
    exact h.selector s (mem_sortDistinct.1 hs) c hcp

/-- A label found among dependencies lies in a module, or in a version: then a colon
stands in front of it, and behind it the rest of the version and a bar. -/
theorem label_in_dependencies {xs ys : List Char}
    (heq : dependencyChars ds = xs ++ (label ++ ys)) :
    (∃ d ∈ ds, label ⊆ d.package.toList) ∨
      ∃ d ∈ ds, label ⊆ d.version.toList ∧ ':' ∈ xs ∧
        ∃ rest behind, rest ⊆ d.version.toList ∧ ys = rest ++ '|' :: behind := by
  induction ds generalizing xs with
  | nil => simp [label] at heq
  | cons d ds ih =>
    rw [dependencyChars_cons] at heq
    rcases Text.marker_beside (by decide) (by decide) heq with ⟨rest, hrest, -⟩ | ⟨zs, rfl, hzs⟩
    · exact .inl ⟨d, by simp, fun c hc => by simp [hrest, hc]⟩
    · rcases Text.marker_beside (by decide) (by decide) hzs with
        ⟨rest, hrest, hys⟩ | ⟨zs', rfl, hzs'⟩
      · exact .inr ⟨d, by simp, fun c hc => by simp [hrest, hc], by simp, rest, _,
          fun c hc => by simp [hrest, hc], hys⟩
      · rcases ih hzs' with ⟨e, he, hsub⟩ | ⟨e, he, hsub, -, htail⟩
        · exact .inl ⟨e, List.mem_cons_of_mem _ he, hsub⟩
        · exact .inr ⟨e, List.mem_cons_of_mem _ he, hsub, by simp, htail⟩

/-- Dependencies that begin with a text and a bar have a colon in the text or a bar in
a module. -/
theorem colon_or_bar {rest behind : List Char} (heq : dependencyChars ds = rest ++ '|' :: behind) :
    ':' ∈ rest ∨ ∃ d ∈ ds, '|' ∈ d.package.toList := by
  cases ds with
  | nil => simp at heq
  | cons d ds =>
    rw [dependencyChars_cons] at heq
    rcases List.append_eq_append_iff.1 heq with ⟨zs, rfl, hzs⟩ | ⟨zs, hp, hzs⟩
    · cases zs with
      | nil => simp at hzs
      | cons z zs =>
        obtain ⟨rfl, -⟩ := List.cons.inj hzs
        exact .inl (by simp)
    · cases zs with
      | nil => simp at hzs
      | cons z zs =>
        obtain ⟨rfl, -⟩ := List.cons.inj hzs
        exact .inr ⟨d, by simp, by simp [hp]⟩

/-- In a clear vocabulary no text of selectors and dependencies is read with the label
in two places. -/
theorem Clear.no_shift (hV : V.Clear) (h : V.Allows b) (h' : V.Allows b') {rest : List Char}
    (hselectors : b'.selectorChars = b.selectorChars ++ label ++ rest)
    (hdeps : dependencyChars b.sortedDependencies =
      rest ++ label ++ dependencyChars b'.sortedDependencies) : False := by
  rw [List.append_assoc] at hselectors hdeps
  refine hV.boundary ⟨h'.label_in_selectors hselectors, ?_⟩
  rcases label_in_dependencies hdeps with
    ⟨d, hd, hsub⟩ | ⟨d, hd, hsub, hcolon, tail, behind, htail, hbehind⟩
  · rw [mem_sortedDependencies] at hd
    exact .inl fun c hc => h.package d hd c (hsub hc)
  · rw [mem_sortedDependencies] at hd
    have hmem : ':' ∈ b'.selectorChars := by simp [hselectors, hcolon]
    refine .inr ⟨fun c hc => h.version d hd c (hsub hc), h'.mem_selectors hmem (by decide), ?_⟩
    rcases colon_or_bar hbehind with hc | ⟨e, he, hbar⟩
    · exact .inl (h.version d hd _ (htail hc))
    · exact .inr (h'.package e (mem_sortedDependencies.1 he) _ hbar)

/-- **In a clear vocabulary, requests with one key ask for the same build.** -/
theorem Clear.agrees (hV : V.Clear) (h : V.Allows b) (h' : V.Allows b') (heq : b.key = b'.key) :
    b.Agrees b' := by
  have hchars := congrArg String.toList heq
  rw [toList_key, toList_key] at hchars
  rcases Text.marker_cases (by decide) (List.append_cancel_left hchars) with
    ⟨hselectors, hdeps⟩ | ⟨rest, hselectors, hdeps⟩ | ⟨rest, hselectors, hdeps⟩
  · exact ⟨hV.selectors_eq h h' hselectors, versions_congr (hV.dependencies_eq h h' hdeps)⟩
  -- one key has its label further on than the other
  · exact (hV.no_shift h h' hselectors hdeps).elim
  · exact (hV.no_shift h' h hselectors hdeps).elim

end Vocabulary

/-! ## Misreadings -/

/-- The ways in which the key of some requests is read as that of others. -/
inductive Misreading
  /-- An empty selector is no selector. -/
  | noSelector
  /-- One selector is two. -/
  | twoSelectors
  /-- A module ends at a later colon. -/
  | laterColon
  /-- A version ends at a later bar. -/
  | laterBar
  /-- The module of one dependency is a dependency and a module. -/
  | longPackage
  /-- The version of one dependency is a version and a dependency. -/
  | longVersion
  /-- The selectors end within a module. -/
  | labelInPackage
  /-- The selectors end within a version, which has a colon. -/
  | labelBeforeColon
  /-- The selectors end within a version, and the next module has a bar. -/
  | labelBeforeBar

namespace Misreading

open BuildOptions

/-- The requests whose key is misread. -/
def written : Misreading → BuildOptions
  | noSelector => ⟨[""], []⟩
  | twoSelectors => ⟨[",,,,"], []⟩
  | laterColon => ⟨[], [⟨":", ""⟩]⟩
  | laterBar => ⟨[], [⟨"", "|"⟩, ⟨"", ""⟩]⟩
  | longPackage => ⟨[], [⟨":|", ""⟩]⟩
  | longVersion => ⟨[], [⟨"", "|:"⟩]⟩
  | labelInPackage => ⟨[], [⟨String.ofList label, ""⟩]⟩
  | labelBeforeColon => ⟨[], [⟨"", String.ofList (label ++ [':'])⟩]⟩
  | labelBeforeBar => ⟨[], [⟨"", String.ofList label⟩, ⟨"", ""⟩]⟩

/-- The requests that it is read as. -/
def read : Misreading → BuildOptions
  | noSelector => ⟨[], []⟩
  | twoSelectors => ⟨[",", ",,"], []⟩
  | laterColon => ⟨[], [⟨"", ":"⟩]⟩
  | laterBar => ⟨[], [⟨"", ""⟩, ⟨"|", ""⟩]⟩
  | longPackage => ⟨[], [⟨"", ""⟩, ⟨"", ""⟩]⟩
  | longVersion => ⟨[], [⟨"", ""⟩, ⟨"", ""⟩]⟩
  | labelInPackage => ⟨[String.ofList label], [⟨"", ""⟩]⟩
  | labelBeforeColon => ⟨[String.ofList (label ++ [':'])], [⟨"", ""⟩]⟩
  | labelBeforeBar => ⟨[String.ofList (label ++ [':'])], [⟨"|", ""⟩]⟩

/-- What a vocabulary must have for the misreading. -/
def Possible (V : Vocabulary) : Misreading → Prop
  | noSelector => V.emptySelector
  | twoSelectors => ',' ∈ V.selector
  | laterColon => ':' ∈ V.package ∧ ':' ∈ V.version
  | laterBar => '|' ∈ V.package ∧ '|' ∈ V.version
  | longPackage => ':' ∈ V.package ∧ '|' ∈ V.package
  | longVersion => ':' ∈ V.version ∧ '|' ∈ V.version
  | labelInPackage => (∀ c ∈ label, c ∈ V.selector) ∧ ∀ c ∈ label, c ∈ V.package
  | labelBeforeColon => (∀ c ∈ label, c ∈ V.selector) ∧ (∀ c ∈ label, c ∈ V.version) ∧
    ':' ∈ V.selector ∧ ':' ∈ V.version
  | labelBeforeBar => (∀ c ∈ label, c ∈ V.selector) ∧ (∀ c ∈ label, c ∈ V.version) ∧
    ':' ∈ V.selector ∧ '|' ∈ V.package

/-- The key says nothing of the difference. -/
theorem key_eq (m : Misreading) : m.written.key = m.read.key := by
  cases m <;> decide

theorem not_agrees (m : Misreading) : ¬ m.written.Agrees m.read := by
  cases m <;> decide

/-- A vocabulary in which the misreading is possible allows both requests. -/
theorem Possible.allows {V : Vocabulary} {m : Misreading} (h : m.Possible V) :
    V.Allows m.written ∧ V.Allows m.read := by
  have hlabel : label ≠ [] := by decide
  -- each character of the two requests is one that the misreading asks for
  cases m <;> simp only [Possible] at h <;> refine ⟨⟨?_, ?_, ?_, ?_⟩, ?_, ?_, ?_, ?_⟩ <;>
    simp [written, read, hlabel] <;> grind

end Misreading

namespace Vocabulary

variable {V : Vocabulary}

theorem clear_of_not_possible (h : ∀ m : Misreading, ¬ m.Possible V) : V.Clear where
  emptySelector := h .noSelector
  comma := h .twoSelectors
  entries := by
    have hcolon := h .laterColon
    have hbar := h .laterBar
    have hpackage := h .longPackage
    have hversion := h .longVersion
    simp only [Misreading.Possible] at hcolon hbar hpackage hversion
    tauto
  boundary := by
    rintro ⟨hs, hp | ⟨hv, hcolon, hcolon' | hbar⟩⟩
    · exact h .labelInPackage ⟨hs, hp⟩
    · exact h .labelBeforeColon ⟨hs, hv, hcolon, hcolon'⟩
    · exact h .labelBeforeBar ⟨hs, hv, hcolon, hbar⟩

/-- **In every other vocabulary some requests have one key** and do not ask for the same
build. -/
theorem clear_of_agrees (h : ∀ b b', V.Allows b → V.Allows b' → b.key = b'.key → b.Agrees b') :
    V.Clear :=
  clear_of_not_possible fun m hm =>
    m.not_agrees (h m.written m.read hm.allows.1 hm.allows.2 m.key_eq)

end Vocabulary

end Conductor
