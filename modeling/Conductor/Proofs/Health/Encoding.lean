import Conductor.Health.Report
import Conductor.Proofs.Json.Records
/-!
# Health — reports and requests in JSON

A report is written as an object with two lists of entries, and read back as it was, from
the value (`HealthReport.decodeValue_toJson`) as from the text of the value
(`HealthReport.decodeText_toJson`), whatever its names and messages are. So is the request
for one (`HealthRequest.decodeText_toJson`).
-/

namespace Conductor

open Json Json.Decode

variable {s : Setting}

/-- A status is read from its name. -/
theorem HealthStatus.decode_name (status : HealthStatus) :
    HealthStatus.decode s (.ofJson (.string status.name)) = .ok status := by
  cases status <;> rfl

namespace HealthReport

/-- An entry is read as it was written. -/
theorem record_entry (hroom : HasRoom 1 s) (e : HealthEntry) :
    record entryShape s (.ofJson e.toJson) = .ok e := by
  rw [HealthEntry.toJson, record_ofJson hroom]
  rw [ofMembers_member rfl (by simp) (read_field rfl)]
  rw [ofMembers_member rfl (by simp) (read_field rfl)]
  rw [ofMembers_member rfl (by simp) (read_field (HealthStatus.decode_name e.status))]
  exact ofMembers_closed (by simp [entryShape, field])

/-- A report is read as it was written. -/
theorem decode_toJson (hroom : HasRoom 3 s) (r : HealthReport) :
    decode s (.ofJson r.toJson) = .ok r := by
  have hentries : ∀ es : List HealthEntry,
      list (record entryShape) s.inner (.ofJson (.array (es.map HealthEntry.toJson))) = .ok es :=
    fun es => list_ofJson hroom.inner fun e _ => record_entry hroom.inner.inner e
  rw [decode, toJson, record_ofJson hroom]
  rw [ofMembers_member rfl (by simp) (read_field (hentries r.checks))]
  rw [ofMembers_member rfl (by simp) (read_field (hentries r.fixes))]
  exact ofMembers_closed (by simp [shape, field])

/-- **A report comes back from its value.** -/
theorem decodeValue_toJson (r : HealthReport) : decodeValue decode r.toJson = .ok r := by
  rw [decodeValue, decode_toJson hasRoom_value]

theorem isKept_toJson (r : HealthReport) : r.toJson.IsKept := by
  have hentries : ∀ es : List HealthEntry, (Json.array (es.map HealthEntry.toJson)).IsKept := by
    intro es
    refine itemsKept_iff.2 fun x hx => ?_
    obtain ⟨e, -, rfl⟩ := List.mem_map.1 hx
    have hnames : ["message", "name", "status"].Pairwise (· < ·) := by decide
    exact ⟨List.pairwise_map.1 hnames, trivial, trivial, trivial, trivial⟩
  have hnames : ["checks", "fixes"].Pairwise (· < ·) := by decide
  exact ⟨List.pairwise_map.1 hnames, hentries r.checks, hentries r.fixes, trivial⟩

/-- There is no number in a report, so it is reread as it is. -/
theorem reread_toJson (r : HealthReport) : r.toJson.reread = r.toJson := by
  have hentries : ∀ es : List HealthEntry,
      itemsReread (es.map HealthEntry.toJson) = es.map HealthEntry.toJson := by
    intro es
    rw [itemsReread_eq_map, List.map_map]
    exact List.map_congr_left fun _ _ => rfl
  simp only [toJson, Json.reread, membersReread, hentries]

/-- **A report comes back from its text.** -/
theorem decodeText_toJson (r : HealthReport) :
    decodeText decode (Text.Utf8.ofString r.toJson.text) = .ok r := by
  rw [decodeText_text (isKept_toJson r), reread_toJson, decode_toJson (hasRoom_text (by decide))]

end HealthReport

/-- **A request comes back from its text.** -/
theorem HealthRequest.decodeText_toJson (r : HealthRequest) :
    decodeText decode (Text.Utf8.ofString r.toJson.text) = .ok r := by
  have hnames : ["fix", "runner"].Pairwise (· < ·) := by decide
  have hkept : r.toJson.IsKept := ⟨List.pairwise_map.1 hnames, trivial, trivial, trivial⟩
  have hreread : r.toJson.reread = r.toJson := rfl
  rw [decodeText_text hkept, hreread, decode, toJson,
    record_ofJson (hasRoom_text (n := 1) (by decide))]
  rw [ofMembers_member rfl (by simp) (read_field rfl)]
  rw [ofMembers_member rfl (by simp) (read_field rfl)]
  exact ofMembers_closed (by simp [shape, field])

end Conductor
