import Conductor.Proofs.Engine.Plan
import Conductor.Proofs.Json.Text
import Conductor.Proofs.Text.Utf8
/-!
# Engine — what fingerprints tell

A fingerprint is made of four texts with a zero character behind each of the first three,
and nothing keeps zero characters out of these. The last text is that of the
configuration, where they are escaped, so it can always be cut off
(`PlannedUnit.chars_eq`), and with it the configuration can be read. The others are told
apart if it is known how many zero characters each of them holds
(`PlannedUnit.same_iff`): among all planned units, exactly if they stand in one of the
three at most (`PlannedUnit.fingerprint_tells_iff`).
-/

namespace Conductor

/-! ## The characters of a fingerprint -/

/-- The text of a selector tells it: a kind has no colon. -/
theorem Selector.text_injective : Function.Injective Selector.text := by
  rintro ⟨kind, implementation, hk, hi⟩ ⟨kind', implementation', hk', hi'⟩ h
  have hchars := congrArg String.toList h
  simp only [Selector.text, String.toList_append, List.append_assoc] at hchars
  obtain ⟨hkind, himplementation⟩ := Text.cut_first hk.2.2 hk'.2.2 hchars
  obtain rfl := String.toList_injective hkind
  obtain rfl := String.toList_injective himplementation
  rfl

namespace Fingerprint

/-- The characters that a fingerprint is made of. -/
def chars (builder : Selector) (plan key : String) (config : Json) : List Char :=
  builder.text.toList ++ '\x00' :: (plan.toList ++ '\x00' :: (key.toList ++ '\x00' :: config.chars))

theorem octets_eq_encode (builder : Selector) (plan key : String) (config : Json) :
    octets builder plan key config = Text.Utf8.encode (chars builder plan key config) := by
  have hzero : ∀ cs, Text.Utf8.encode ('\x00' :: cs) = 0 :: Text.Utf8.encode cs :=
    fun cs => Text.Utf8.encode_cons_ascii (by decide)
  simp [octets, chars, Text.Utf8.ofString, Json.text, hzero]

end Fingerprint

/-! ## Planned units -/

/-- A unit planned for a validated composition. -/
structure PlannedUnit where
  engine : Engine
  composition : ValidComposition
  builder : Builder
  unit : BuildUnit
  valid : ∃ purpose c, Composition.validateFor purpose c = .ok composition
  planned : ∃ units, engine.planBuilds composition builder = .ok units ∧ unit ∈ units
  /-- A configuration is a document, and has no infinite numbers. -/
  finite : (Json.object unit.config).IsFinite

namespace PlannedUnit

/-- The texts that end at a zero character. -/
inductive Part
  | builder
  | plan
  | key
  deriving DecidableEq

def plan (p : PlannedUnit) : String := p.composition.composition.settings.plan

def text (p : PlannedUnit) : Part → String
  | .builder => p.builder.id.text
  | .plan => p.plan
  | .key => p.unit.key

/-- The zero characters of a part. -/
def zeros (p : PlannedUnit) (part : Part) : Nat := (p.text part).toList.count '\x00'

/-- The octets that the fingerprint of the unit is the digest of. -/
def octets (p : PlannedUnit) : List UInt8 :=
  Fingerprint.octets p.builder.id p.plan p.unit.key (.object p.unit.config)

/-- The fingerprints of the units stand for one request. -/
structure Same (p q : PlannedUnit) : Prop where
  builder : p.builder.id = q.builder.id
  plan : p.plan = q.plan
  key : p.unit.key = q.unit.key
  config : (Json.object p.unit.config).text = (Json.object q.unit.config).text

/-- Zero characters stand in these parts only. -/
def Within (parts : Set Part) (p : PlannedUnit) : Prop :=
  ∀ part ∉ parts, '\x00' ∉ (p.text part).toList

variable {p q : PlannedUnit} {parts : Set Part}

theorem Same.text_eq (h : p.Same q) : ∀ part, p.text part = q.text part
  | .builder => congrArg Selector.text h.builder
  | .plan => h.plan
  | .key => h.key

theorem Within.zeros_eq (h : p.Within parts) {part : Part} (hpart : part ∉ parts) :
    p.zeros part = 0 :=
  List.count_eq_zero.2 (h part hpart)

/-! ## The fingerprint of a planned unit -/

/-- The fingerprint of a planned unit is the digest of its octets. -/
theorem fingerprint_eq (p : PlannedUnit) : p.unit.fingerprint = Digest.sha256 p.octets := by
  obtain ⟨units, hplan, hmem⟩ := p.planned
  -- groups that are added to a unit change its ids only
  have hmade : ∀ u ∈ units, u.fingerprint =
      fingerprint p.builder.id p.plan u.key (.object u.config) := by
    refine BuildUnit.addAll_forall (fun g _ u hu => ?_) (fun g _ u _ hu => hu) (by simp)
      (BuildUnit.planBuilds_eq_ok hplan).2
    simp only [BuildUnit.ofGroup] at hu
    split at hu
    · cases hu
    · cases hu
      rfl
  exact hmade p.unit hmem

/-! ## Reading the octets -/

/-- What stands in front of the configuration. -/
def front (p : PlannedUnit) : List Char :=
  (p.text .builder).toList ++ '\x00' :: ((p.text .plan).toList ++ '\x00' :: (p.text .key).toList)

/-- **The configuration can be cut off**, since its text holds no zero character. -/
theorem chars_eq (h : p.octets = q.octets) :
    p.front = q.front ∧ (Json.object p.unit.config).chars = (Json.object q.unit.config).chars := by
  have hnone : ∀ r : PlannedUnit, '\x00' ∉ (Json.object r.unit.config).chars := fun r hmem =>
    absurd (Json.printable_chars _ r.finite _ hmem) (by decide)
  have hchars : p.front ++ '\x00' :: (Json.object p.unit.config).chars =
      q.front ++ '\x00' :: (Json.object q.unit.config).chars := by
    simp only [octets, Fingerprint.octets_eq_encode] at h
    simpa [front, text, Fingerprint.chars] using Text.Utf8.encode_injective h
  exact Text.cut_last (hnone p) (hnone q) hchars

/-- And read. -/
theorem config_eq (h : p.octets = q.octets) : p.unit.config = q.unit.config := by
  have hends : Json.Ends [] := by simp [Json.Ends]
  have hobject := Json.chars_append_inj _ _ p.finite q.finite hends hends
    (by simpa using (chars_eq h).2)
  exact Json.object.inj hobject.1

/-- Altogether the parts hold as many zero characters. -/
theorem zeros_eq (h : p.octets = q.octets) :
    p.zeros .builder + p.zeros .plan + p.zeros .key =
      q.zeros .builder + q.zeros .plan + q.zeros .key := by
  have hcount := congrArg (List.count '\x00') (chars_eq h).1
  simp only [front, List.count_append, List.count_cons_self] at hcount
  simp only [zeros]
  omega

/-- **The parts can be told** when it is known how many zero characters they hold. -/
theorem same_iff (h : p.octets = q.octets) :
    p.Same q ↔ p.zeros .builder = q.zeros .builder ∧ p.zeros .plan = q.zeros .plan := by
  refine ⟨fun hsame => ?_, fun ⟨hbuilder, hplan⟩ => ?_⟩
  · simp only [zeros, hsame.text_eq, and_self]
  · obtain ⟨hbuilder, hrest⟩ := Text.cut_counted hbuilder (chars_eq h).1
    obtain ⟨hplan, hkey⟩ := Text.cut_counted hplan hrest
    exact ⟨Selector.text_injective (String.toList_injective hbuilder),
      String.toList_injective hplan, String.toList_injective hkey, by rw [config_eq h]⟩

/-- Where only one part may hold zero characters, it holds all of them. -/
theorem same_of_within (hparts : parts.Subsingleton) (hp : p.Within parts) (hq : q.Within parts)
    (h : p.octets = q.octets) : p.Same q := by
  have htotal := zeros_eq h
  have hnone : ∀ part ∉ parts, p.zeros part = 0 ∧ q.zeros part = 0 := fun part hpart =>
    ⟨hp.zeros_eq hpart, hq.zeros_eq hpart⟩
  have hother : ∀ {x y : Part}, x ∈ parts → x ≠ y → y ∉ parts := fun hx hne hy =>
    hne (hparts hx hy)
  refine (same_iff h).2 ?_
  -- the parts that hold none on either side drop out of the sums
  by_cases hbuilder : Part.builder ∈ parts
  · have hplan := hnone .plan (hother hbuilder (by simp))
    have hkey := hnone .key (hother hbuilder (by simp))
    omega
  · have hnobuilder := hnone .builder hbuilder
    by_cases hplan : Part.plan ∈ parts
    · have hkey := hnone .key (hother hplan (by simp))
      omega
    · have hnoplan := hnone .plan hplan
      omega

/-! ## Three requests with one fingerprint

The characters between two of the separators are part of the builder, of the plan, or of
the name of a module. -/

namespace Spread

theorem isPart_implementation : IsSelectorPart "bin\x00p" := by
  decide

def builderId : Part → Selector
  | .builder => ⟨"exec", "bin\x00p", Local.builderId.kind_isPart, isPart_implementation⟩
  | _ => Local.builderId

def plan : Part → String
  | .builder => "selectors=;dependencies="
  | .plan => "p\x00selectors=;dependencies="
  | .key => "p"

def request : Part → BuildOptions
  | .key => ⟨[], [⟨"\x00selectors=;dependencies=m", "v"⟩]⟩
  | _ => ⟨[], [⟨"m", "v"⟩]⟩

def composition (total : Nat) (x : Part) : Composition where
  metadata := ⟨"", ""⟩
  settings := ⟨plan x, "", total, (builderId x).text, "", [], none, [], none⟩
  groups := [⟨"g", ⟨1, .zero⟩, request x, [], [], ⟨none, []⟩⟩]

def validated (x : Part) : ValidComposition := ⟨composition 1 x, builderId x, none, [1]⟩

def engine : Engine := ⟨⟨[], []⟩, .standard, ⟨""⟩⟩

def builder (x : Part) : Builder := ⟨builderId x, [], fun _ => .ok ()⟩

def key (x : Part) : String := ((composition 1 x).groups.map Group.buildKey).headD ""

def unit (x : Part) : BuildUnit :=
  ⟨key x, ["g"], [], (request x).versions, [],
    fingerprint (builderId x) (plan x) (key x) (.object [])⟩

theorem validateFor_eq (x : Part) :
    Composition.validateFor .build (composition 0 x) = .ok (validated x) := by
  cases x <;> rfl

theorem planBuilds_eq (x : Part) : engine.planBuilds (validated x) (builder x) = .ok [unit x] := by
  cases x <;> rfl

def planned (x : Part) : PlannedUnit where
  engine := engine
  composition := validated x
  builder := builder x
  unit := unit x
  valid := ⟨.build, _, validateFor_eq x⟩
  planned := ⟨_, planBuilds_eq x, List.mem_singleton_self _⟩
  finite := by simp [unit, Json.IsFinite, Json.MembersFinite]

/-- Only the part itself holds a zero character. -/
theorem mem_text (x part : Part) : '\x00' ∈ ((planned x).text part).toList ↔ part = x := by
  cases x <;> cases part <;> decide

/-- A key names the dependency between texts that are always the same. -/
theorem toList_key (x : Part) : (key x).toList = "selectors=".toList ++ (BuildOptions.label ++
    (BuildOptions.dependencyChars (request x).dependencies ++ ";config=\x7b\x7d".toList)) := by
  have hsorted : (request x).sortedDependencies = (request x).dependencies := by
    cases x <;> rfl
  have hselectors : (request x).selectorChars = [] := by
    cases x <;> rfl
  have hconfig : (Json.objectText []).toList = "\x7b\x7d".toList := rfl
  simp [key, composition, Group.buildKey, BuildOptions.toList_key, hsorted, hselectors, hconfig]

/-- So the characters between the first and the last separator are the same. -/
theorem octets_eq (x y : Part) : (planned x).octets = (planned y).octets := by
  have hchars : ∀ x, Fingerprint.chars (builderId x) (plan x) (key x) (.object []) =
      Fingerprint.chars (builderId .key) (plan .key) (key .key) (.object []) := by
    rintro (_ | _ | _) <;>
      simp [Fingerprint.chars, toList_key, builderId, Local.builderId, Selector.text, plan, request,
        BuildOptions.label]
  -- the octets themselves are long to compare
  change Fingerprint.octets (builderId x) (plan x) (key x) (.object []) =
    Fingerprint.octets (builderId y) (plan y) (key y) (.object [])
  rw [Fingerprint.octets_eq_encode, Fingerprint.octets_eq_encode, hchars x, hchars y]

theorem within (x : Part) (hx : x ∈ parts) : (planned x).Within parts := by
  intro part hpart hmem
  rw [mem_text] at hmem
  exact hpart (hmem ▸ hx)

theorem not_same {x y : Part} (hne : x ≠ y) : ¬ (planned x).Same (planned y) := by
  intro hsame
  have hx := (mem_text x x).2 rfl
  rw [hsame.text_eq] at hx
  exact hne ((mem_text y x).1 hx)

end Spread

/-! ## What fingerprints tell -/

/-- **What a fingerprint stands for.** It is the digest of the octets of its unit. Units
with the same octets always have one configuration, and stand for one request exactly
when their builders hold as many zero characters, and so do their plans. Hence the octets
of planned units tell the requests exactly if zero characters are allowed in one of the
parts at most. -/
theorem fingerprint_tells_iff (parts : Set Part) :
    (∀ p : PlannedUnit, p.unit.fingerprint = Digest.sha256 p.octets) ∧
    (∀ p q : PlannedUnit, p.octets = q.octets → p.unit.config = q.unit.config ∧
      (p.Same q ↔ p.zeros .builder = q.zeros .builder ∧ p.zeros .plan = q.zeros .plan)) ∧
    ((∀ p q : PlannedUnit, p.Within parts → q.Within parts → p.octets = q.octets → p.Same q) ↔
      parts.Subsingleton) := by
  refine ⟨fingerprint_eq, fun p q h => ⟨config_eq h, same_iff h⟩, fun htells => ?_, ?_⟩
  · intro x hx y hy
    by_contra hne
    exact Spread.not_same hne
      (htells _ _ (Spread.within x hx) (Spread.within y hy) (Spread.octets_eq x y))
  · intro hparts p q hp hq h
    exact same_of_within hparts hp hq h

/-- A plan whose name holds a zero character, and another with a module whose name does. -/
theorem not_fingerprint_tells : ¬ ∀ p q : PlannedUnit, p.octets = q.octets → p.Same q := by
  intro h
  exact Spread.not_same (by simp) (h _ _ (Spread.octets_eq .plan .key))

end PlannedUnit

end Conductor
