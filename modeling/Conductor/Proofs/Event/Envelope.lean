import Conductor.Event.Envelope
import Conductor.Proofs.Json.Records
/-!
# Events — an envelope is read as it was sent

The line of an envelope is read back as the envelope (`Envelope.parse_toLine`), but for
what a line cannot say, or a reader does not take from it: the numbers in a payload are
reread (`Event.reread`), a payload that is null is no payload (`Event.received`), and of
the time only the nanoseconds since the start of 1970 are sent, if 64 bits hold them
(`Instant.received_eq`). Nothing is asked of the texts in the event, nor of what its
members mean for its kind; the payloads must not be nested too deep for the reader.
-/

namespace Conductor

variable {σ : Type} {v : Option Json} {name : String} {n : Nat}

/-! ## The members of an event -/

namespace Event

variable {e : Event}

/-- The values of any kind that an event carries. -/
def payloads (e : Event) : List Json := e.metric.toList ++ e.runenv.toList

/-- The members of an event as JSON. -/
def members (e : Event) : List (String × Json) :=
  optionalMember "error" (e.error.map .string) ++
    optionalMember "message" (e.message.map .string) ++
    optionalMember "metric" e.metric ++
    optionalMember "outcome" (e.outcome.map .string) ++
    optionalMember "runenv" e.runenv ++
    optionalMember "stacktrace" (e.stacktrace.map .string) ++
    [("type", .string e.kind.name)]

theorem keys_optionalMember (name : String) (v : Option Json) :
    ((optionalMember name v).map Prod.fst).Sublist [name] := by
  cases v with
  | none => exact List.nil_sublist _
  | some v => exact List.Sublist.refl _

theorem mem_optionalMember {m : String × Json} :
    m ∈ optionalMember name v ↔ m.1 = name ∧ v = some m.2 := by
  obtain ⟨k, x⟩ := m
  cases v with
  | none => simp [optionalMember]
  | some y => simp [optionalMember, eq_comm]

/-- The event with the numbers in its payloads reread. -/
def reread (e : Event) : Event :=
  { e with metric := e.metric.map Json.reread, runenv := e.runenv.map Json.reread }

theorem payloads_reread (e : Event) : e.reread.payloads = e.payloads.map Json.reread := by
  have hmap : ∀ v : Option Json, (v.map Json.reread).toList = v.toList.map Json.reread := by
    intro v
    cases v <;> rfl
  rw [payloads, payloads, List.map_append, ← hmap, ← hmap]
  rfl

theorem optionalMember_reread (name : String) (v : Option Json) :
    Json.membersReread (optionalMember name v) = optionalMember name (v.map Json.reread) := by
  cases v <;> rfl

/-- In its members they are the numbers that are reread. -/
theorem members_reread (e : Event) : Json.membersReread e.members = e.reread.members := by
  have happend : ∀ ms ms' : List (String × Json), Json.membersReread (ms ++ ms') =
      Json.membersReread ms ++ Json.membersReread ms' := by
    intro ms ms'
    simp only [Json.membersReread_eq_map, List.map_append]
  have htext : ∀ t : Option String, (t.map Json.string).map Json.reread = t.map .string := by
    intro t
    cases t <;> rfl
  simp only [members, happend, optionalMember_reread, htext, reread]
  rfl

theorem reread_toJson (e : Event) : e.toJson.reread = e.reread.toJson :=
  congrArg Json.object (members_reread e)

/-- An event whose payloads are reread as they are is reread as it is. -/
theorem reread_eq_self (h : ∀ v ∈ e.payloads, v.reread = v) : e.reread = e := by
  have hmap : ∀ v : Option Json, (∀ x ∈ v, x.reread = x) → v.map Json.reread = v := by
    intro v hv
    exact (Option.map_congr hv).trans Option.map_id'
  have hmetric := hmap e.metric fun v hv => h v (by simp [payloads, Option.mem_def.1 hv])
  have hrunenv := hmap e.runenv fun v hv => h v (by simp [payloads, Option.mem_def.1 hv])
  simp only [reread, hmetric, hrunenv]

/-- The members stand in the order of their names. -/
theorem sorted_members (e : Event) : Table.Sorted e.members := by
  have hkeys : (e.members.map Prod.fst).Sublist
      ["error", "message", "metric", "outcome", "runenv", "stacktrace", "type"] := by
    simp only [members, List.map_append]
    exact ((((((keys_optionalMember ..).append (keys_optionalMember ..)).append
      (keys_optionalMember ..)).append (keys_optionalMember ..)).append
      (keys_optionalMember ..)).append (keys_optionalMember ..)).append (.refl _)
  have hsorted : (["error", "message", "metric", "outcome", "runenv", "stacktrace", "type"] :
      List String).Pairwise (· < ·) := by decide
  exact List.pairwise_map.1 (hsorted.sublist hkeys)

/-- A member is a payload, or a text. -/
theorem of_mem_members {m : String × Json} (h : m ∈ e.members) :
    m.2 ∈ e.payloads ∨ ∃ s, m.2 = .string s := by
  simp only [members, List.mem_append, mem_optionalMember, List.mem_singleton,
    Option.map_eq_some_iff] at h
  unfold payloads
  rcases h with (((((⟨-, s, -, hs⟩ | ⟨-, s, -, hs⟩) | ⟨-, hm⟩) | ⟨-, s, -, hs⟩) | ⟨-, hr⟩) |
    ⟨-, s, -, hs⟩) | rfl
  · exact .inr ⟨s, hs.symm⟩
  · exact .inr ⟨s, hs.symm⟩
  · exact .inl (by simp [hm])
  · exact .inr ⟨s, hs.symm⟩
  · exact .inl (by simp [hr])
  · exact .inr ⟨s, hs.symm⟩
  · exact .inr ⟨_, rfl⟩

/-- An event as JSON is kept, if its payloads are. -/
theorem isKept_toJson (h : ∀ v ∈ e.payloads, v.IsKept) : e.toJson.IsKept := by
  refine ⟨e.sorted_members, Json.membersKept_iff.2 fun m hm => ?_⟩
  rcases of_mem_members hm with hpayload | ⟨s, hs⟩
  · exact h _ hpayload
  · rw [hs]
    trivial

/-- It is one deeper than they are. -/
theorem depth_toJson (h : ∀ v ∈ e.payloads, v.depth ≤ n) : e.toJson.depth ≤ n + 1 := by
  refine Nat.succ_le_succ (Json.membersDepth_le_iff.2 fun m hm => ?_)
  rcases of_mem_members hm with hpayload | ⟨s, hs⟩
  · exact h _ hpayload
  · rw [hs]
    exact Nat.zero_le n

end Event

/-! ## Decoding a record -/

namespace Json.Decode

variable {r : Shape σ} {f : Field σ} {s : Setting} {finish : Finish} {seen : List String}
  {acc acc' : σ} {ms ms' : List (String × Json)}

/-- A member that is there or not is put into the record, or leaves it as it is. -/
theorem ofMembers_optional (hfield : r.fields.find? (fun g => g.name = name) = some f)
    (hseen : name ∉ seen) (hnone : v = none → acc' = acc)
    (hsome : ∀ x ∈ v, ∃ put, f.read s (.ofJson x) = .ok put ∧ put acc = acc') :
    r.ofMembers s finish seen acc (Document.ofMembers (Event.optionalMember name v ++ ms)) =
      r.ofMembers s finish ((Event.optionalMember name v).map Prod.fst ++ seen) acc'
        (Document.ofMembers ms) := by
  cases v with
  | none =>
    rw [hnone rfl]
    rfl
  | some x =>
    obtain ⟨put, hread, rfl⟩ := hsome x rfl
    exact ofMembers_member hfield hseen hread

/-- The entries of a table of values are those of an object. -/
theorem entries_value {members : List (Document × Document)} {t : Table Json} :
    entries value s t members = liftFlaw (Document.entries s.nesting members t) := by
  induction members generalizing t with
  | nil => rfl
  | cons m members ih =>
    obtain ⟨k, d⟩ := m
    simp only [entries, Document.entries, value]
    cases k.name with
    | error f => rfl
    | ok k =>
      cases d.value s.nesting with
      | error f => rfl
      | ok x => exact ih

/-- **A line with an object** decodes to its members, with their numbers reread. -/
theorem decodeShallow_object (hv : (Json.object ms).IsKept)
    (hdepth : (Json.object ms).depth ≤ maxNesting) :
    decodeShallow (table value) (Text.Utf8.ofString (Json.object ms).text) =
      .ok (membersReread ms) := by
  have hread : Json.reread (.object ms) = .object (membersReread ms) := rfl
  have hkept : (Json.object (membersReread ms)).IsKept := IsKept.reread _ hv
  rw [← depth_reread, hread] at hdepth
  have hentries : Document.entries (some (maxNesting - 1))
      (Document.ofMembers (membersReread ms)) [] = .ok (membersReread ms) :=
    @entries_ofMembers _ hkept.2 _ (by simpa [depth] using Nat.le_pred_of_lt hdepth) [] hkept.1
  rw [decodeShallow, readSource_text hv (by rwa [← depth_reread, hread]), hread, decodeSource,
    Document.ofJson]
  change ((entries value ⟨.text, some (maxNesting - 1)⟩ []
    (Document.ofMembers (membersReread ms)) >>= _) >>= _) = _
  rw [entries_value, hentries]
  rfl

/-- What arrives of a value that may be missing: null is none. -/
def arriving : Option Json → Option Json
  | some .null => none
  | v => v

/-- A value is read as it is, but for null. -/
theorem nullable_value {x : Json} (h : x.IsKept) :
    nullable value .value (.ofJson x) = .ok (arriving (some x)) := by
  have hvalue : value .value (.ofJson x) = .ok x :=
    congrArg liftFlaw (@value_ofJson x h none (by simp))
  cases x with
  | null => rfl
  | bool b => rfl
  | number n => cases n <;> exact congrArg (fun r => r >>= fun x => pure (some x)) hvalue
  | string t => rfl
  | array xs => exact congrArg (fun r => r >>= fun x => pure (some x)) hvalue
  | object ms => exact congrArg (fun r => r >>= fun x => pure (some x)) hvalue

/-- A text that may be missing is put into the record as it was sent. -/
theorem ofMembers_text (name : String) (put : Option String → σ → σ) (t : Option String)
    (hfield : r.fields.find? (fun g => g.name = name) =
      some (field name .defaulted (nullable text) put))
    (hseen : name ∉ seen) (hput : put none acc = acc) :
    r.ofMembers s finish seen acc
        (Document.ofMembers (Event.optionalMember name (t.map .string) ++ ms)) =
      r.ofMembers s finish ((Event.optionalMember name (t.map .string)).map Prod.fst ++ seen)
        (put t acc) (Document.ofMembers ms) := by
  refine ofMembers_optional hfield hseen ?_ ?_
  · intro hnone
    rw [Option.map_eq_none_iff.1 hnone, hput]
  · rintro x hx
    obtain ⟨t, rfl, rfl⟩ := Option.map_eq_some_iff.1 hx
    exact ⟨put (some t), rfl, rfl⟩

/-- So is a value, but for null. -/
theorem ofMembers_payload (name : String) (put : Option Json → σ → σ) (hv : ∀ x ∈ v, x.IsKept)
    (hfield : r.fields.find? (fun g => g.name = name) =
      some (field name .defaulted (nullable value) put))
    (hseen : name ∉ seen) (hput : put none acc = acc) :
    r.ofMembers .value finish seen acc
        (Document.ofMembers (Event.optionalMember name v ++ ms)) =
      r.ofMembers .value finish ((Event.optionalMember name v).map Prod.fst ++ seen)
        (put (arriving v) acc) (Document.ofMembers ms) := by
  refine ofMembers_optional hfield hseen ?_ ?_
  · rintro rfl
    exact hput
  · intro x hx
    rw [Option.mem_def.1 hx]
    exact ⟨_, read_field (nullable_value (hv x hx)), rfl⟩

end Json.Decode

namespace Event

variable {e : Event}

/-- What arrives of an event: a payload that is null is none. -/
def received (e : Event) : Event :=
  { e with metric := Json.Decode.arriving e.metric, runenv := Json.Decode.arriving e.runenv }

open Json.Decode

/-- The names of members that may be missing are no other names. -/
theorem not_mem_keys {other : String} (h : other ≠ name) :
    other ∉ (optionalMember name v).map Prod.fst :=
  fun hmem => h (List.mem_singleton.1 ((keys_optionalMember name v).subset hmem))

/-- The kind of an event is read from its name. -/
theorem decode_kind (k : EventKind) :
    EventKind.decode .value (.ofJson (.string k.name)) = .ok k := by
  cases k <;> rfl

/-- **An event** is read as it was sent, but for payloads that are null. -/
theorem decode_toJson (h : ∀ v ∈ e.payloads, v.IsKept) :
    Json.decodeValue Event.decode e.toJson = .ok e.received := by
  have hmetric : ∀ v ∈ e.metric, v.IsKept := fun v hv =>
    h v (by simp [payloads, Option.mem_def.1 hv])
  have hrunenv : ∀ v ∈ e.runenv, v.IsKept := fun v hv =>
    h v (by simp [payloads, Option.mem_def.1 hv])
  have hread : Event.decode .value (.ofJson e.toJson) = .ok e.received := by
    change shape.ofMembers .value .closed [] shape.empty (Json.Document.ofMembers e.members) = _
    simp only [members, List.append_assoc]
    -- the members come in the order of their names, and none comes twice
    rw [ofMembers_text (r := shape) "error" (fun x e => { e with error := x }) e.error rfl
      (by simp) rfl]
    rw [ofMembers_text (r := shape) "message" (fun x e => { e with message := x }) e.message rfl
      (by simp [not_mem_keys]) rfl]
    rw [ofMembers_payload (r := shape) "metric" (fun x e => { e with metric := x }) hmetric rfl
      (by simp [not_mem_keys]) rfl]
    rw [ofMembers_text (r := shape) "outcome" (fun x e => { e with outcome := x }) e.outcome rfl
      (by simp [not_mem_keys]) rfl]
    rw [ofMembers_payload (r := shape) "runenv" (fun x e => { e with runenv := x }) hrunenv rfl
      (by simp [not_mem_keys]) rfl]
    rw [ofMembers_text (r := shape) "stacktrace" (fun x e => { e with stacktrace := x })
      e.stacktrace rfl (by simp [not_mem_keys]) rfl]
    rw [ofMembers_member (r := shape) rfl (by simp [not_mem_keys])
      (read_field (decode_kind e.kind))]
    exact ofMembers_closed (by simp [shape, field])
  rw [Json.decodeValue, hread]

end Event

/-! ## Envelopes -/

namespace Instant

variable {t : Instant} {n : Int}

/-- The instant after some nanoseconds is after so many. -/
theorem toNanos_ofNanos (n : Int) : (ofNanos n).toNanos = n := by
  change n / 1000000000 * 1000000000 + ((n % 1000000000).toNat : Int) = n
  omega

/-- An instant outside a leap second is the one after its nanoseconds. -/
theorem ofNanos_toNanos (h : t.nanos < second) : ofNanos t.toNanos = t := by
  obtain ⟨seconds, nanos, hlt⟩ := t
  simp only [second] at h
  simp only [ofNanos, toNanos, mk.injEq]
  omega

theorem nanos64?_eq_some : t.nanos64? = some n ↔
    n = t.toNanos ∧ -(Width.intBound64 : Int) ≤ n ∧ n < Width.intBound64 := by
  unfold nanos64?
  dsimp only
  split <;> rename_i hfits
  · constructor
    · rintro ⟨⟩
      exact ⟨rfl, hfits⟩
    · rintro ⟨rfl, -⟩
      rfl
  · constructor
    · rintro ⟨⟩
    · rintro ⟨rfl, h⟩
      exact absurd h hfits

/-- The time is sent: 64 bits hold its nanoseconds since the start of 1970. -/
def IsSent (t : Instant) : Prop := -2 ^ 63 ≤ t.toNanos ∧ t.toNanos < 2 ^ 63

instance (t : Instant) : Decidable t.IsSent := inferInstanceAs (Decidable (_ ∧ _))

/-- The instant that its nanoseconds since the start of 1970 tell. A leap second has those
of the second behind it, which is so named. -/
def counted (t : Instant) : Instant := ofNanos t.toNanos

/-- An instant outside of leap seconds is the one told. -/
theorem counted_eq_self (h : t.nanos < second) : t.counted = t := ofNanos_toNanos h

/-- **A time is received** as the instant told, if it is sent. -/
theorem received_eq (t : Option Instant) :
    (t.bind nanos64?).map ofNanos = (t.filter (·.IsSent)).map counted := by
  cases t with
  | none => rfl
  | some t =>
    have hbound : (Width.intBound64 : Int) = 2 ^ 63 := by norm_num [Width.intBound64]
    by_cases h : t.IsSent
    · have hsome : t.nanos64? = some t.toNanos := if_pos (by rw [hbound]; exact h)
      simp [hsome, h, counted]
    · have hnone : t.nanos64? = none := if_neg (by rw [hbound]; exact h)
      simp [hnone, h]

end Instant

namespace Envelope

variable {env : Envelope}

/-- The envelope with the numbers in its payloads reread. -/
def reread (env : Envelope) : Envelope := ⟨env.time, env.event.reread⟩

/-- What arrives of an envelope: of the time, the nanoseconds that 64 bits hold. -/
def received (env : Envelope) : Envelope :=
  ⟨(env.time.bind Instant.nanos64?).map .ofNanos, env.event.received⟩

/-- The members of an envelope as JSON. -/
def members (env : Envelope) : Table Json :=
  ("event", env.event.toJson) ::
    Event.optionalMember "ts" ((env.time.bind Instant.nanos64?).map fun n => .number (.int n))

theorem members_reread (env : Envelope) :
    Json.membersReread env.members = env.reread.members := by
  have htime : ∀ n : Option Int, (n.map fun n => Json.number (.int n)).map Json.reread =
      n.map fun n => .number (.int n) := by
    intro n
    cases n <;> rfl
  rw [members, Json.membersReread, Event.reread_toJson, Event.optionalMember_reread, htime]
  rfl

theorem sorted_members (env : Envelope) : Table.Sorted env.members := by
  refine List.pairwise_cons.2 ⟨fun m hm => ?_, ?_⟩
  · rw [(Event.mem_optionalMember.1 hm).1]
    exact (by decide : "event" < "ts")
  · cases env.time.bind Instant.nanos64? <;> simp [Event.optionalMember]

/-- Behind the event there is at most a number of 64 bits. -/
theorem of_mem_members {m : String × Json} (h : m ∈ env.members) :
    m.2 = env.event.toJson ∨ ∃ n : Int, m.2 = .number (.int n) ∧ Json.fitsInt n = true := by
  rcases List.mem_cons.1 h with rfl | hts
  · exact .inl rfl
  obtain ⟨n, hn, hm⟩ := Option.map_eq_some_iff.1 (Event.mem_optionalMember.1 hts).2
  obtain ⟨t, -, ht⟩ := Option.bind_eq_some_iff.1 hn
  obtain ⟨-, hlow, hhigh⟩ := Instant.nanos64?_eq_some.1 ht
  refine .inr ⟨n, hm.symm, ?_⟩
  have hwide : n < Width.natBound64 := hhigh.trans (by decide)
  simp [Json.fitsInt, hlow, hwide]

theorem isKept_toJson (h : ∀ v ∈ env.event.payloads, v.IsKept) : env.toJson.IsKept := by
  refine ⟨env.sorted_members, Json.membersKept_iff.2 fun m hm => ?_⟩
  rcases of_mem_members hm with hevent | ⟨n, hn, hfits⟩
  · rw [hevent]
    exact Event.isKept_toJson h
  · rw [hn]
    exact hfits

/-- The characters of a line are no control characters. -/
theorem toLine_printable (h : ∀ v ∈ env.event.payloads, v.IsKept) :
    Json.Printable env.toLine.toList := by
  rw [toLine, Json.text, String.toList_ofList]
  exact Json.printable_chars _ (isKept_toJson h).isFinite

theorem depth_toJson (h : ∀ v ∈ env.event.payloads, v.depth ≤ n) : env.toJson.depth ≤ n + 2 := by
  refine Nat.succ_le_succ (Json.membersDepth_le_iff.2 fun m hm => ?_)
  rcases of_mem_members hm with hevent | ⟨n, hn, hfits⟩
  · rw [hevent]
    exact Event.depth_toJson h
  · rw [hn]
    exact Nat.zero_le _

/-- The time that was sent is the one that arrives. -/
theorem time_members (env : Envelope) :
    (env.members.get? "ts").bind timeOf? = (env.time.bind Instant.nanos64?).map .ofNanos := by
  cases ht : env.time.bind Instant.nanos64? with
  | none => simp [members, ht, Event.optionalMember, Table.get?]
  | some n =>
    obtain ⟨t, -, hn⟩ := Option.bind_eq_some_iff.1 ht
    obtain ⟨-, -, hfits⟩ := Instant.nanos64?_eq_some.1 hn
    simp [members, ht, Event.optionalMember, Table.get?, timeOf?, hfits]

/-- **The line of an envelope** is read as the envelope with its numbers reread, but for
payloads that are null and times that 64 bits do not hold, if no payload is too deep. -/
theorem parse_toLine (h : ∀ v ∈ env.event.payloads, v.IsKept ∧ v.depth ≤ 125) :
    parse (Text.Utf8.ofString env.toLine) = .ok env.reread.received := by
  have hkept := isKept_toJson fun v hv => (h v hv).1
  have hdepth : env.toJson.depth ≤ Json.maxNesting := depth_toJson fun v hv => (h v hv).2
  have hline : Json.decodeShallow (Json.Decode.table Json.Decode.value)
      (Text.Utf8.ofString env.toLine) = .ok env.reread.members := by
    rw [← members_reread]
    exact Json.Decode.decodeShallow_object hkept hdepth
  have hpayloads : ∀ v ∈ env.reread.event.payloads, v.IsKept := by
    intro v hv
    obtain ⟨w, hw, rfl⟩ := List.mem_map.1 (Event.payloads_reread env.event ▸ hv)
    exact Json.IsKept.reread w (h w hw).1
  have hevent := Event.decode_toJson hpayloads
  have hget : env.reread.members.get? "event" = some env.reread.event.toJson := if_pos rfl
  simp only [parse, hline, hget, hevent, time_members]
  rfl

end Envelope

end Conductor
