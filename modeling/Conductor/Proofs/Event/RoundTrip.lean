import Conductor.Proofs.Event.Envelope
import Conductor.Proofs.Json.Records
/-!
# Events — envelopes are read again as they are written

Writing an envelope and reading the line gives the envelope back, but for what a line does
not say (`Envelope.parse_toLine_normal`); and an envelope that was read has nothing of that
kind: its time is a number of nanoseconds that 64 bits hold, and no payload of it is null or
too deep (`Envelope.of_parse`). So whatever line an envelope was read from, its own line is
read as the same envelope, if the numbers in it are read as they are printed
(`Envelope.round_trip`). A leap second and a number of many digits are not
(`Envelope.not_read_as_sent`).
-/

namespace Conductor

variable {n : Nat}

namespace Json.Decode

/-- A value that arrives is the one sent, and not null. -/
theorem arriving_eq_some {v : Option Json} {x : Json} :
    arriving v = some x ↔ v = some x ∧ x ≠ .null := by
  cases v with
  | none => simp [arriving]
  | some v =>
    cases v
    case null =>
      constructor
      · rintro ⟨⟩
      · rintro ⟨⟨⟩, hne⟩
        exact absurd rfl hne
    all_goals
      simp only [arriving, Option.some.injEq, iff_self_and]
      rintro rfl
      simp

/-- A table of values that is read is sorted, and its values are kept and one less deep. -/
theorem decodeShallow_table {bs : List UInt8} {ms : Table Json}
    (h : decodeShallow (table value) bs = .ok ms) :
    Table.Sorted ms ∧ ∀ m ∈ ms, m.2.IsKept ∧ m.2.depth ≤ 126 := by
  have hnumbers : (readSource maxNesting bs).document.NumbersKept := by
    unfold readSource
    split
    all_goals
      rename_i hread
      exact kept_of_eq hread ((reads_kept _).value ..)
  obtain ⟨t, ht, h⟩ := bind_eq_ok.1 h
  have htable : t = ms := by
    dsimp only at h
    split at h <;> cases h
    rfl
  subst htable
  cases hd : (readSource maxNesting bs).document with
  | object members finish =>
    rw [hd] at ht hnumbers
    obtain ⟨t', hentries, ht⟩ := bind_eq_ok.1 (show (entries value Setting.text.inner [] members >>=
      fun t => liftFlaw finish.check >>= fun _ => pure t) = .ok t from ht)
    obtain ⟨-, -, ht⟩ := bind_eq_ok.1 ht
    cases ht
    rw [entries_value] at hentries
    cases hvalues : Document.entries Setting.text.inner.nesting members [] with
    | error flaw =>
      rw [hvalues] at hentries
      cases hentries
    | ok ms =>
      rw [hvalues] at hentries
      cases hentries
      obtain ⟨hsorted, hall⟩ := isKept_of_entries members hnumbers hvalues .nil (by simp)
      exact ⟨hsorted, fun m hm => ⟨(hall m hm).1, (hall m hm).2 126 rfl⟩⟩
  | _ =>
    rw [hd] at ht
    cases ht

end Json.Decode

/-! ## Events -/

namespace Event

open Json.Decode

/-- The payloads of the event can be sent as they are, no deeper than the bound. -/
def Carries (n : Nat) (e : Event) : Prop :=
  ∀ v ∈ e.payloads, v.IsKept ∧ v.depth ≤ n ∧ v ≠ .null

variable {e : Event}

theorem mem_payloads {v : Json} : v ∈ e.payloads ↔ e.metric = some v ∨ e.runenv = some v := by
  simp [payloads]

/-- **What is read of an event** can be sent again as it is. -/
theorem carries_of_decode {raw : Json} (hraw : raw.IsKept) (hdepth : raw.depth ≤ n + 1)
    (h : Json.decodeValue decode raw = .ok e) : e.Carries n := by
  refine record_keeps (P := Carries n) (r := shape) (by simp [Carries, payloads, shape, bare])
    (fun f hf x hx put hput e he => ?_) h
  obtain ⟨hkept, hshallow⟩ := Json.parts_kept hraw hdepth hx
  have hsent : ∀ v, arriving (some x) = some v → v.IsKept ∧ v.depth ≤ n ∧ v ≠ .null := by
    intro v hv
    obtain ⟨hxv, hne⟩ := arriving_eq_some.1 hv
    obtain rfl := Option.some.inj hxv
    exact ⟨hkept, hshallow, hne⟩
  simp only [shape, List.mem_cons, List.not_mem_nil, or_false] at hf
  -- only the last two fields are payloads
  rcases hf with rfl | rfl | rfl | rfl | rfl | rfl | rfl
  all_goals obtain ⟨a, ha, rfl⟩ := read_field_eq_ok hput
  · exact he
  · exact he
  · exact he
  · exact he
  · exact he
  · intro v hv
    cases ha.symm.trans (nullable_value hkept)
    rcases mem_payloads.1 hv with hv | hv
    · exact hsent v hv
    · exact he v (mem_payloads.2 (.inr hv))
  · intro v hv
    cases ha.symm.trans (nullable_value hkept)
    rcases mem_payloads.1 hv with hv | hv
    · exact he v (mem_payloads.2 (.inl hv))
    · exact hsent v hv

/-- An event without payloads that are null arrives as it is. -/
theorem received_eq_self (h : e.Carries n) : e.received = e := by
  have harriving : ∀ v : Option Json, (∀ x ∈ v, x ≠ .null) → arriving v = v := by
    intro v hv
    cases v with
    | none => rfl
    | some x => exact arriving_eq_some.2 ⟨rfl, hv x rfl⟩
  have hmetric := harriving e.metric fun x hx => (h x (mem_payloads.2 (.inl hx))).2.2
  have hrunenv := harriving e.runenv fun x hx => (h x (mem_payloads.2 (.inr hx))).2.2
  simp only [received, hmetric, hrunenv]

end Event

/-! ## Envelopes -/

namespace Envelope

variable {env : Envelope} {line : List UInt8}

/-- The envelope without what is not sent: a time that 64 bits do not hold, and payloads that
are null. -/
def normal (env : Envelope) : Envelope :=
  ⟨env.time.filter (·.IsSent), env.event.received⟩

/-- **The line of an envelope** is read as the envelope without what is not sent. Its time
is then named by its nanoseconds, and the numbers in its payloads are reread. -/
theorem parse_toLine_normal (h : ∀ v ∈ env.event.payloads, v.IsKept ∧ v.depth ≤ 125) :
    parse (Text.Utf8.ofString env.toLine) =
      .ok ⟨env.normal.time.map .counted, env.event.reread.received⟩ := by
  rw [parse_toLine h, received, reread, Instant.received_eq]
  rfl

/-- Payloads that are read as they are printed are reread as they are. -/
theorem reread_event (h : ∀ v ∈ env.event.payloads, v.IsKept ∧ v.depth ≤ 125)
    (hread : ∀ v ∈ env.event.payloads, Json.parseText v.text = .ok v) :
    env.event.reread = env.event := by
  refine Event.reread_eq_self fun v hv => ?_
  have htext := Json.parseText_text (h v hv).1 ((h v hv).2.trans (by decide))
  exact Except.ok.inj (htext.symm.trans (hread v hv))

/-- An envelope that is as it is sent. -/
structure IsNormal (env : Envelope) : Prop where
  time : ∀ t ∈ env.time, t.IsSent ∧ t.nanos < Instant.second
  event : env.event.Carries 125

/-- The time that is read of a value is one that is sent. -/
theorem isSent_of_timeOf? {v : Json} {t : Instant} (hv : v.IsKept) (h : timeOf? v = some t) :
    t.IsSent ∧ t.nanos < Instant.second := by
  unfold timeOf? at h
  split at h
  · rename_i n
    split at h
    · rename_i hlt
      cases h
      have hfits : -(Width.intBound64 : Int) ≤ n := by
        have hfits : Json.fitsInt n = true := hv
        simp only [Json.fitsInt, decide_eq_true_eq] at hfits
        exact hfits.1
      have hbound : (Width.intBound64 : Int) = 2 ^ 63 := by norm_num [Width.intBound64]
      rw [hbound] at hfits hlt
      refine ⟨?_, ?_⟩
      · rw [Instant.IsSent, Instant.toNanos_ofNanos]
        exact ⟨hfits, hlt⟩
      · simp only [Instant.ofNanos, Instant.second]
        omega
    · cases h
  · cases h

/-- **An envelope that was read** is as it is sent. -/
theorem of_parse (h : parse line = .ok env) : env.IsNormal := by
  unfold parse at h
  split at h
  · cases h
  rename_i members hmembers
  split at h
  · cases h
  rename_i raw hraw
  split at h
  · cases h
  rename_i event hevent
  cases h
  obtain ⟨-, hall⟩ := Json.Decode.decodeShallow_table hmembers
  obtain ⟨hkept, hdepth⟩ := hall _ (Table.mem_of_get? hraw)
  refine ⟨fun t ht => ?_, Event.carries_of_decode hkept hdepth hevent⟩
  obtain ⟨v, hv, ht⟩ := Option.bind_eq_some_iff.1 ht
  exact isSent_of_timeOf? (hall _ (Table.mem_of_get? hv)).1 ht

/-- What is reread of an envelope that was read is as it is sent. -/
theorem IsNormal.received_reread (h : env.IsNormal) : env.reread.received = env.reread := by
  have hcarries : env.event.reread.Carries 125 := by
    intro v hv
    rw [Event.payloads_reread] at hv
    obtain ⟨w, hw, rfl⟩ := List.mem_map.1 hv
    obtain ⟨hkept, hdepth, hne⟩ := h.event w hw
    refine ⟨Json.IsKept.reread w hkept, (Json.depth_reread w).trans_le hdepth, fun hnull => ?_⟩
    cases w <;> first | exact hne rfl | cases hnull
  have htime : (env.time.filter (·.IsSent)).map .counted = env.time := by
    cases ht : env.time with
    | none => rfl
    | some t => simp [(h.time t ht).1, Instant.counted_eq_self (h.time t ht).2]
  simp only [received, reread, Instant.received_eq, htime, Event.received_eq_self hcarries]

/-- **Envelopes are read as they are written.** The line of an envelope whose payloads are
not too deep is one line, and is read as the envelope without the time if 64 bits do not hold
it and without payloads that are null. The time is told by its nanoseconds since the start of
1970, so a leap second is read as the second behind it; and the numbers in the payloads are
reread, so payloads are the same that are read as they are printed. The line of an envelope
that was read from any line is read as that envelope with its numbers reread, and as the same
envelope if its payloads are read as they are printed. -/
theorem round_trip :
    (∀ env : Envelope, (∀ v ∈ env.event.payloads, v.IsKept ∧ v.depth ≤ 125) →
      '\n' ∉ env.toLine.toList ∧ '\r' ∉ env.toLine.toList ∧
      parse (Text.Utf8.ofString env.toLine) =
        .ok ⟨env.normal.time.map .counted, env.event.reread.received⟩ ∧
      ((∀ v ∈ env.event.payloads, Json.parseText v.text = .ok v) →
        parse (Text.Utf8.ofString env.toLine) =
          .ok ⟨env.normal.time.map .counted, env.normal.event⟩)) ∧
    ∀ (line : List UInt8) (env : Envelope), parse line = .ok env →
      parse (Text.Utf8.ofString env.toLine) = .ok env.reread ∧
      ((∀ v ∈ env.event.payloads, Json.parseText v.text = .ok v) →
        parse (Text.Utf8.ofString env.toLine) = .ok env) := by
  refine ⟨fun env h => ?_, fun line env h => ?_⟩
  · have hline : Json.Printable env.toLine.toList := toLine_printable fun v hv => (h v hv).1
    refine ⟨fun hmem => absurd (hline _ hmem) (by decide),
      fun hmem => absurd (hline _ hmem) (by decide), parse_toLine_normal h, fun hread => ?_⟩
    rw [parse_toLine_normal h, reread_event h hread]
    rfl
  · have hnormal := of_parse h
    have hkept : ∀ v ∈ env.event.payloads, v.IsKept ∧ v.depth ≤ 125 :=
      fun v hv => ⟨(hnormal.event v hv).1, (hnormal.event v hv).2.1⟩
    have hparse : parse (Text.Utf8.ofString env.toLine) = .ok env.reread := by
      rw [parse_toLine hkept, hnormal.received_reread]
    refine ⟨hparse, fun hread => ?_⟩
    rw [hparse, reread, reread_event hkept hread]

namespace Returned

/-- One half. -/
def half : Json := .number (.real ⟨0x3FE0000000000000⟩)

/-- The earliest time that is sent, a payload that is null and one that is not. -/
def sample : Envelope :=
  ⟨some (.ofNanos (-2 ^ 63)), { Event.ofMetric .null with runenv := some (.array [.nat 1, half]) }⟩

theorem shallow : ∀ v ∈ sample.event.payloads, v.IsKept ∧ v.depth ≤ 125 := by
  intro v hv
  rcases List.mem_pair.1 hv with rfl | rfl
  · exact ⟨trivial, Nat.zero_le _⟩
  · exact ⟨⟨rfl, rfl, trivial⟩, by decide⟩

/-- The payloads are read as they are printed: one half has few digits. -/
theorem printed : ∀ v ∈ sample.event.payloads, Json.parseText v.text = .ok v := by
  intro v hv
  have hhalf : half.reread = half :=
    congrArg Json.number (Json.Number.reread_eq_self rfl (by decide +kernel) (by decide +kernel)
      (by decide +kernel))
  rw [Json.parseText_text (shallow v hv).1 ((shallow v hv).2.trans (by decide))]
  rcases List.mem_pair.1 hv with rfl | rfl
  · rfl
  · exact congrArg (fun x => Except.ok (Json.array [.nat 1, x])) hhalf

/-- The last leap second there was. -/
def leap : Envelope := ⟨some ⟨1483228799, 1000000000, by decide⟩, .start⟩

/-- A metric with a number of seventeen digits, `100.78399658203125`. -/
def measured : Envelope :=
  ⟨none, .ofMetric (.object [("x", .number (.real ⟨0x4059322D00000000⟩))])⟩

end Returned

/-- **Not everything is read as it was sent.** Where there is no payload at all, a leap second
is read as the second behind it; and where there is no time, a number of many digits is read
as another number. -/
theorem not_read_as_sent :
    Returned.leap.event.payloads = [] ∧
      parse (Text.Utf8.ofString Returned.leap.toLine) ≠ .ok Returned.leap.normal ∧
      (∀ v ∈ Returned.measured.event.payloads, v.IsKept ∧ v.depth ≤ 125) ∧
      parse (Text.Utf8.ofString Returned.measured.toLine) ≠ .ok Returned.measured.normal := by
  have hmeasured : ∀ v ∈ Returned.measured.event.payloads, v.IsKept ∧ v.depth ≤ 125 := by
    intro v hv
    obtain rfl := List.mem_singleton.1 hv
    exact ⟨⟨List.pairwise_singleton .., rfl, trivial⟩, by decide⟩
  refine ⟨rfl, fun h => ?_, hmeasured, fun h => ?_⟩
  · rw [parse_toLine_normal (by simp [Returned.leap, Event.payloads, Event.start, Event.bare])] at h
    have htime := congrArg Envelope.time (Except.ok.inj h)
    revert htime
    decide
  · rw [parse_toLine_normal hmeasured] at h
    have hmetric := congrArg (fun env => env.event.metric) (Except.ok.inj h)
    have hnumber : Json.Number.reread (.real ⟨0x4059322D00000000⟩) = .real ⟨0x4059322D00000000⟩ := by
      injection hmetric with hmetric
      injection hmetric with hmembers
      injection hmembers with hmember
      injection hmember with _ hvalue
      injection hvalue
    injection hnumber with hnumber
    revert hnumber
    decide +kernel

/-- The payload that is null is not sent, and the rest is, over and over. -/
theorem round_trip_of_null :
    parse (Text.Utf8.ofString Returned.sample.toLine) = .ok Returned.sample.normal ∧
      Returned.sample.normal.event.metric = none ∧
      Returned.sample.normal.time = some (.ofNanos (-2 ^ 63)) ∧
      parse (Text.Utf8.ofString Returned.sample.normal.toLine) = .ok Returned.sample.normal := by
  obtain ⟨-, -, -, hread⟩ := round_trip.1 Returned.sample Returned.shallow
  have hread : parse (Text.Utf8.ofString Returned.sample.toLine) = .ok Returned.sample.normal :=
    hread Returned.printed
  have hpayloads : ∀ v ∈ Returned.sample.normal.event.payloads, Json.parseText v.text = .ok v := by
    intro v hv
    obtain rfl := List.mem_singleton.1 hv
    exact Returned.printed _ (by simp [Returned.sample, Event.payloads])
  exact ⟨hread, rfl, by decide, (round_trip.2 _ _ hread).2 hpayloads⟩

end Envelope

end Conductor
