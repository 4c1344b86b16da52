import Conductor.Local.Config
import Conductor.Proofs.Engine.Completion
import Mathlib.Data.Set.Basic
/-!
# Engine — when the cache is transparent

A call on an engine that remembers earlier builds should be answered as it would be on
a fresh one (`Call.Transparent`). Whether it is depends on the calls: it is for all
builders that are functions of what they are asked for exactly when units of these
calls that have one fingerprint ask for the same (`Call.Told`,
`Call.transparent_iff`). In one direction, whatever is found was made for a unit with
the fingerprint, in a call before; in the other, a builder whose artifact marks one
request shows the difference, since every call can be brought to its end.

The fingerprint does not see to it that the requests are the same. The directory with
the sources of a plan is no part of it, so a plan that is built from two directories
has the artifact of the first for both (`Call.not_transparent`).
-/

namespace Conductor

/-- What the result of a build says to a caller, but for the fingerprint. -/
def BuildResult.shown (r : BuildResult) : Selector × String × List String × Table String :=
  (r.builder, r.artifact, r.groupIds, r.dependencies)

namespace Call

variable {e : Engine} {w : Workshop} {l l₁ l₂ : Ledger} {c d : Call} {s s₀ : BuildStage}
  {comp : Composition} {o : CallOptions} {runId runId' : String} {canceled : Bool}

/-- **The cache is transparent** to some calls: whatever calls of these came before, a
call that succeeds has the answer that it has on an engine that remembers nothing. -/
def Transparent (e : Engine) (calls : Set (Composition × CallOptions)) : Prop :=
  ∀ (w : Workshop) (past : List (Composition × CallOptions)) (comp : Composition)
    (o : CallOptions) (l l₁ l₂ : Ledger) (runId runId' : String) (canceled : Bool) (c d : Call)
    (bs : List BuildResult) (r : Except OrchestrationError Answer),
    History e w past l → (∀ q ∈ past, q ∈ calls) → (comp, o) ∈ calls →
      Alone e w l (buildOnly e runId canceled comp o) l₁ c →
      c.phase = .finished (.ok (.builds bs)) →
      Alone e w .empty (buildOnly e runId' false comp o) l₂ d → d.phase = .finished r →
      d.canceled = false →
        ∃ bs', r = .ok (.builds bs') ∧ bs'.map BuildResult.shown = bs.map BuildResult.shown

/-- **Fingerprints tell requests** among some calls: units with one fingerprint ask the
same of the same builder. -/
def Told (e : Engine) (calls : Set (Composition × CallOptions)) : Prop :=
  ∀ q ∈ calls, ∀ q' ∈ calls, ∀ s s', Plans e q.1 q.2 s → Plans e q'.1 q'.2 s' →
    ∀ u ∈ s.units, ∀ u' ∈ s'.units, u.fingerprint = u'.fingerprint →
      s.builder = s'.builder ∧ s.requestOf u = s'.requestOf u'

/-! ## The results of a build -/

theorem plans_unique {s s' : BuildStage} (h : Plans e comp o s) (h' : Plans e comp o s') :
    s = s' := by
  have heq := h.symm.trans h'
  cases heq
  rfl

/-- A successful build has its results. -/
theorem Alone.results {bs : List BuildResult}
    (h : Alone e w l (buildOnly e runId canceled comp o) l₁ c)
    (hphase : c.phase = .finished (.ok (.builds bs))) :
    ∃ s₀, Plans e comp o s₀ ∧ List.Forall₂ (s₀.Gives w l) s₀.units bs := by
  rcases h.planned with ⟨rfl, s₀, hplans⟩ | ⟨⟨error, herror⟩, -⟩
  · have hbuilt := h.built hplans
    unfold Built at hbuilt
    rw [hphase] at hbuilt
    obtain ⟨⟨bs', heq, hgives⟩ | ⟨⟨error, herror⟩, -⟩, -⟩ := hbuilt
    · cases heq
      exact ⟨s₀, hplans, hgives⟩
    · cases herror
  · rw [hphase] at herror
    cases herror

/-- On an engine that remembers nothing, a result is that of the unit's own build. -/
theorem gives_empty : s₀.Gives w .empty = s₀.Builds w := by
  funext u r
  simp [BuildStage.Gives, Ledger.empty]

/-- A unit has one build. -/
theorem builds_unique : Relator.RightUnique (s₀.Builds w) := by
  rintro u r r' ⟨out, hout, rfl⟩ ⟨out', hout', rfl⟩
  rw [hout] at hout'
  cases hout'
  rfl

/-- A unit whose build fails has no result. -/
theorem not_fails_of_builds {us : List BuildUnit} {bs : List BuildResult}
    (hbuilds : List.Forall₂ (s₀.Builds w) us bs) : ¬ ∃ u ∈ us, s₀.Fails w l u := by
  induction hbuilds with
  | nil => simp
  | cons hr _ ih =>
    rintro ⟨u, hu, hfails⟩
    rcases List.mem_cons.1 hu with rfl | hu
    · exact hfails.2 _ hr
    · exact ih ⟨u, hu, hfails⟩

/-! ## Told requests have transparent answers -/

/-- What is found for a unit is what the unit's own build gives. -/
def HitsAgree (w : Workshop) (l : Ledger) (s : BuildStage) : Prop :=
  ∀ u ∈ s.units, ∀ hit, l.cache.get? u.fingerprint = some hit →
    s.Builds w u (hit.forGroups u.groupIds)

/-- Where what is found agrees, the results are those of the units' own builds. -/
theorem HitsAgree.builds (h : HitsAgree w l s₀) {bs : List BuildResult}
    (hgives : List.Forall₂ (s₀.Gives w l) s₀.units bs) :
    List.Forall₂ (s₀.Builds w) s₀.units bs := by
  refine ((List.forall₂_and_left _ _).2 ⟨h, hgives⟩).imp fun {u r} hur => ?_
  obtain ⟨hagree, ⟨hit, hget, rfl⟩ | ⟨-, hr⟩⟩ := hur
  · exact hagree hit hget
  · exact hr

/-- Where fingerprints tell requests, what is found was made for the same request. -/
theorem Told.hitsAgree {calls : Set (Composition × CallOptions)} (h : Told e calls)
    {past : List (Composition × CallOptions)} (history : History e w past l)
    (hpast : ∀ q ∈ past, q ∈ calls) (hcall : (comp, o) ∈ calls) (hplans : Plans e comp o s) :
    HitsAgree w l s := by
  intro u hu hit hget
  obtain ⟨q, hq, s', hplans', u', hu', hfp, out, hout, rfl⟩ := history.entry_made hget
  -- it was made for a unit of an earlier call, which asked for the same
  obtain ⟨hbuilder, hrequest⟩ := h q (hpast q hq) _ hcall s' s hplans' hplans u' hu' u hu hfp
  rw [hbuilder, hrequest] at hout
  refine ⟨out, hout, ?_⟩
  simp [BuildResult.forGroups, BuildStage.resultOf, hbuilder, hfp]

/-- So the answer is that of a fresh engine. -/
theorem HitsAgree.same_answer {bs : List BuildResult} {r : Except OrchestrationError Answer}
    (agree : HitsAgree w l s) (hplans : Plans e comp o s)
    (hgives : List.Forall₂ (s.Gives w l) s.units bs)
    (fresh : Alone e w .empty (buildOnly e runId' false comp o) l₂ d)
    (hfresh : d.phase = .finished r) (uncanceled : d.canceled = false) : r = .ok (.builds bs) := by
  have hbuilds : List.Forall₂ (s.Builds w) s.units bs := agree.builds hgives
  have hbuilt := fresh.built hplans
  unfold Built at hbuilt
  rw [hfresh] at hbuilt
  obtain ⟨⟨bs', rfl, hown⟩ | ⟨-, hblame⟩, -⟩ := hbuilt
  · rw [gives_empty] at hown
    rw [builds_unique.forall₂ hbuilds hown]
  · exact absurd (hblame uncanceled) (not_fails_of_builds hbuilds)

/-! ## Transparent answers tell requests -/

/-- A builder whose artifact says whether a request is the one given. -/
noncomputable def marking (b : Selector) (q : BuildRequest) : Workshop := fun b' q' =>
  open Classical in
  .returned (.ok ⟨if b' = b ∧ q' = q then "marked" else "unmarked", []⟩)

theorem marking_productive (b : Selector) (q : BuildRequest) : (marking b q).Productive :=
  fun _ _ => ⟨_, rfl⟩

/-- The artifact of the request given is told from all others. -/
theorem marking_inj {b b' : Selector} {q q' : BuildRequest} {out out' : BuildOutput}
    (h : marking b q b q = .returned (.ok out)) (h' : marking b q b' q' = .returned (.ok out'))
    (heq : out'.artifact = out.artifact) : b' = b ∧ q' = q := by
  by_contra hne
  simp only [marking, if_neg hne, and_self, if_true] at h h'
  cases h
  cases h'
  simp at heq

/-- If both what is found and what is built are shown alike, the artifact found is the
one built. -/
theorem artifact_of_shown {us : List BuildUnit} {bs bs' : List BuildResult}
    (hgives : List.Forall₂ (s₀.Gives w l) us bs) (hbuilds : List.Forall₂ (s₀.Builds w) us bs')
    (h : bs'.map BuildResult.shown = bs.map BuildResult.shown) :
    ∀ u ∈ us, ∀ hit, l.cache.get? u.fingerprint = some hit →
      ∃ out, w s₀.builder (s₀.requestOf u) = .returned (.ok out) ∧ out.artifact = hit.artifact := by
  induction hgives generalizing bs' with
  | nil => simp
  | @cons u r us bs hr _ ih =>
    cases hbuilds with
    | @cons _ r' _ bs' hown hrest =>
      rw [List.map_cons, List.map_cons] at h
      obtain ⟨hhead, htail⟩ := List.cons.inj h
      refine List.forall_mem_cons.2 ⟨fun hit hget => ?_, ih hrest htail⟩
      obtain ⟨out, hout, rfl⟩ := hown
      rcases hr with ⟨hit', hget', rfl⟩ | ⟨hmiss, -⟩
      · rw [hget] at hget'
        cases hget'
        exact ⟨out, hout, congrArg (fun x => x.2.1) hhead⟩
      · rw [hmiss] at hget
        cases hget

/-- In a transparent engine, an artifact that is found is that of the unit's own build. -/
theorem Transparent.artifact {calls : Set (Composition × CallOptions)} (h : Transparent e calls)
    (hw : w.Productive) {q q' : Composition × CallOptions} (hq : q ∈ calls) (hq' : q' ∈ calls)
    (history : History e w [q] l) (hplans : Plans e q'.1 q'.2 s) {u : BuildUnit} (hu : u ∈ s.units)
    {hit : BuildResult} (hget : l.cache.get? u.fingerprint = some hit) :
    ∃ out, w s.builder (s.requestOf u) = .returned (.ok out) ∧ out.artifact = hit.artifact := by
  -- the call comes to its end on the warm engine and on a fresh one
  obtain ⟨l₁, bs, c, warm, hc, -, -⟩ := exists_finished hw l "run" hplans
  obtain ⟨l₂, bs', d, fresh, hd, huncanceled, -⟩ := exists_finished hw .empty "run" hplans
  obtain ⟨bs'', heq, hshown⟩ := h w [q] q'.1 q'.2 l l₁ l₂ _ _ _ c d bs _ history (by simpa using hq)
    hq' warm hc fresh hd huncanceled
  cases heq
  obtain ⟨s₁, hplans₁, hgives⟩ := warm.results hc
  obtain ⟨s₂, hplans₂, hbuilds⟩ := fresh.results hd
  obtain rfl := plans_unique hplans hplans₁
  obtain rfl := plans_unique hplans hplans₂
  rw [gives_empty] at hbuilds
  exact artifact_of_shown hgives hbuilds hshown u hu hit hget

/-- Where the cache is transparent, fingerprints tell requests. -/
theorem Transparent.told {calls : Set (Composition × CallOptions)} (h : Transparent e calls) :
    Told e calls := by
  intro q hq q' hq' s s' hplans hplans' u hu u' hu' hfp
  -- the builder marks the request of the second unit, and the first call comes before
  have hw := marking_productive s'.builder (s'.requestOf u')
  obtain ⟨l, bs, c, call, hc, -, hkept⟩ := exists_finished hw .empty "run" hplans
  have history : History e _ [q] l := .next .start call hc
  obtain ⟨hit, hget⟩ := Option.ne_none_iff_exists'.1 (hkept u hu)
  obtain ⟨out, hout, heq⟩ := h.artifact hw hq hq history hplans hu hget
  obtain ⟨out', hout', heq'⟩ := h.artifact hw hq hq' history hplans' hu' (hfp ▸ hget)
  exact marking_inj hout' hout (heq.trans heq'.symm)

/-! ## Two sources

A plan is built from one directory and then from another. -/

namespace TwoSources

def builder : Builder := ⟨Local.builderId, [], fun _ => .ok ()⟩

def engine : Engine := ⟨⟨[builder], []⟩, .standard, ⟨"/home"⟩⟩

def composition : Composition where
  metadata := ⟨"", ""⟩
  settings := ⟨"plan", "", 0, "exec:bin", "", [], none, [], none⟩
  groups := [⟨"g", ⟨1, .zero⟩, .none, [], [], ⟨none, []⟩⟩]

/-- The sources are in the directory given. -/
def options (source : String) : CallOptions := ⟨some source, none, false⟩

def key : String := (composition.groups.map Group.buildKey).headD ""

def unit : BuildUnit :=
  ⟨key, ["g"], [], [], [], fingerprint builder.id "plan" key (.object [])⟩

def stage (source : String) : BuildStage := .ofPlan builder.id "plan" source [unit]

theorem plans (source : String) : Plans engine composition (options source) (stage source) := rfl

theorem not_told : ¬ Told engine Set.univ := by
  intro told
  have hunit : ∀ source, unit ∈ (stage source).units := fun _ => List.mem_singleton_self unit
  have hrequest := (told (composition, options "/one") (Set.mem_univ _)
    (composition, options "/two") (Set.mem_univ _) _ _ (plans "/one") (plans "/two")
    unit (hunit _) unit (hunit _) rfl).2
  simp [stage, BuildStage.ofPlan, BuildStage.requestOf, BuildStage.inputOf,
    BuildInput.request] at hrequest

end TwoSources

/-! ## Transparency -/

/-- **The cache is transparent exactly where fingerprints tell requests**: to some calls,
for all builders that are functions of what they are asked for, whatever the order and
the course of the calls. -/
theorem transparent_iff (e : Engine) (calls : Set (Composition × CallOptions)) :
    Transparent e calls ↔ Told e calls := by
  refine ⟨Transparent.told, fun told => ?_⟩
  intro w past comp o l l₁ l₂ runId runId' canceled c d bs r history hpast hcall warm hc fresh hd
    uncanceled
  obtain ⟨s, hplans, hgives⟩ := warm.results hc
  have agree : HitsAgree w l s := told.hitsAgree history hpast hcall hplans
  exact ⟨bs, agree.same_answer hplans hgives fresh hd uncanceled, rfl⟩

/-- The directory with the sources is no part of a fingerprint, so an engine does not
answer all calls as a fresh one would. -/
theorem not_transparent : ¬ ∀ e : Engine, Transparent e Set.univ := fun h =>
  TwoSources.not_told (h TwoSources.engine).told

end Call

end Conductor
