import DocumentPipeline.Proofs.RoundTrip
import DocumentPipeline.Proofs.Timestamps

/-! # Round trip of the status

A status comes back from the text written for it. Its start may also be told in any other way that
RFC 3339 has for the instant, at any offset from UTC; it is read as the same instant and written
in the preferred way again.
-/
namespace DocumentPipeline

open Json

theorem Json.getD_slots_of_not_mem {ms : List (String × Json)} {α : Type} (read : Node → Result α)
    {k : String} (default : α) (hk : k ∉ ms.map Prod.fst) :
    (slots ms).getD k read default = .ok default := by
  rw [Slots.getD, lookup_slots_eq_none hk]

theorem Phase.read_node (p : Phase) : read (node p.toJson) = .ok p :=
  readVariant_node (by cases p <;> rfl)

theorem PoolStatus.read_node (s : PoolStatus) : read (node s.toJson) = .ok s := by
  have hrecord : Record fields [("name", .text s.name), ("size", .natural s.size.toNat),
      ("finished", .natural s.finished.toNat)] :=
    ⟨by simp, by simp [fields, Field.of], by simp [fields, Field.of]⟩
  simp [read, toJson, hrecord.readSlots_eq, hrecord.get_eq]

namespace PipelineStatus

/-- The members of a status whose start is told by a text, if at all. -/
def members (s : PipelineStatus) (start : Option String) : List (String × Json) :=
  ("phase", s.phase.toJson) ::
    ((start.map fun text => ("started_at", .text text)).toList ++
      [("queue_size", .natural s.queueSize.toNat),
        ("remaining_capacity", .natural s.remainingCapacity.toNat),
        ("emit_queue_remaining", .natural s.emitQueueRemaining.toNat),
        ("fetch_pool", s.fetchPool.toJson), ("emit_pool", s.emitPool.toJson),
        ("total_processed", .natural s.totalProcessed.toNat)])

/-- A status whose start is told by a text, if at all. -/
def told (s : PipelineStatus) (start : Option String) : Json := .object (s.members start)

variable {start : Option String} {at? : Option Instant}

theorem toJson_eq (s : PipelineStatus) : s.toJson = s.told (s.startedAt.map Instant.write) := by
  rw [toJson, told, members, Option.map_map]
  rfl

theorem readInstant?_node {text : String} {t : Instant} (h : Instant.read? text = some t) :
    readInstant? (node (.text text)) = .ok (some t) := by
  simp [readInstant?, readOptional, node, readContent, readString, h]

theorem record_members (s : PipelineStatus) (h : start.map Instant.read? = at?.map some) :
    Record fields (s.members start) := by
  cases start with
  | none =>
    exact ⟨by simp [members], by simp [members, fields, Field.of, Phase.read_node,
      PoolStatus.read_node], by simp [members, fields, Field.of]⟩
  | some text =>
    obtain ⟨t, -, hread⟩ := Option.map_eq_some_iff.mp h.symm
    exact ⟨by simp [members], by simp [members, fields, Field.of, Phase.read_node,
      PoolStatus.read_node, readInstant?_node hread.symm], by simp [members, fields, Field.of]⟩

/-- The text that tells the start is read, and all else comes back. -/
theorem read_told (s : PipelineStatus) (h : start.map Instant.read? = at?.map some) :
    read (node (s.told start)) = .ok { s with startedAt := at? } := by
  have hrecord := record_members s h
  have hstart : (slots (s.members start)).getD "started_at" readInstant? none = .ok at? := by
    cases start with
    | none =>
      obtain rfl : at? = none := by simpa [eq_comm] using h
      exact getD_slots_of_not_mem _ _ (by simp [members])
    | some text =>
      obtain ⟨t, rfl, hread⟩ := Option.map_eq_some_iff.mp h.symm
      rw [hrecord.getD_eq _ _ (v := .text text) (by simp [members]), readInstant?_node hread.symm]
  have hphase := (hrecord.get_eq (k := "phase") Phase.read (by simp [members])).trans
    s.phase.read_node
  have hfetch := (hrecord.get_eq (k := "fetch_pool") PoolStatus.read (by simp [members])).trans
    s.fetchPool.read_node
  have hemit := (hrecord.get_eq (k := "emit_pool") PoolStatus.read (by simp [members])).trans
    s.emitPool.read_node
  have hword {k : String} {w : UInt64} (hm : (k, .natural w.toNat) ∈ s.members start) :
      (slots (s.members start)).get k readWord = .ok w :=
    (hrecord.get_eq readWord hm).trans (readWord_node w)
  have hsize := hword (k := "queue_size") (w := s.queueSize) (by simp [members])
  have hroom := hword (k := "remaining_capacity") (w := s.remainingCapacity) (by simp [members])
  have houtroom := hword (k := "emit_queue_remaining") (w := s.emitQueueRemaining)
    (by simp [members])
  have htotal := hword (k := "total_processed") (w := s.totalProcessed) (by simp [members])
  simp only [read, told, hrecord.readSlots_eq, Result.ok_bind, hphase, hstart, hsize, hroom,
    houtroom, hfetch, hemit, htotal]

/-- How a status whose workers were launched at an instant is decoded and encoded. -/
structure Relaunched (s : PipelineStatus) (t : Instant) : Prop where
  /-- Every text that tells the instant, at whatever offset, leads to it. -/
  decoded : ∀ offset text, t.Written offset text →
    decode read (s.told (some text)).render = .ok { s with startedAt := some t }
  /-- There is such a text for each offset below a day at which clocks show a year of four
  digits. -/
  written : ∀ offset date, -1440 < offset → offset < 1440 →
    Date.OnDay ((t.seconds + 60 * offset) / 86400) date → 0 ≤ date.year → date.year ≤ 9999 →
      ∃ text, t.Written offset text
  /-- Encoding picks the preferred text. -/
  encoded : ∃ text, t.Canonical text ∧
    { s with startedAt := some t }.toJson = s.told (some text)

/-- A status comes back from the text written for it, and the instant of the launch from every
text that tells it. -/
theorem told_round_trip (s : PipelineStatus) :
    ((∀ t, s.startedAt = some t → t.IsPlain) → decode read s.toJson.render = .ok s) ∧
      ∀ t : Instant, t.IsPlain → Relaunched s t := by
  constructor
  · intro hplain
    rw [decode_render, toJson_eq]
    refine read_told s ?_
    cases hs : s.startedAt with
    | none => rfl
    | some t =>
      have ht := hplain t hs
      exact congrArg some (Instant.read?_written ht ((Instant.canonical_write ht).written ht))
  · intro t ht
    constructor
    case decoded =>
      intro offset text htext
      rw [decode_render]
      exact read_told s (congrArg some (Instant.read?_written ht htext))
    case written =>
      intro offset date h₁ h₂ hday hfirst hlast
      exact Instant.exists_written ht h₁ h₂ hday ⟨hfirst, hlast⟩
    case encoded =>
      exact ⟨t.write, Instant.canonical_write ht, toJson_eq _⟩

/-- A launch in the last second of a leap day, half a millisecond in. -/
def leapDay : Instant := { seconds := 1709251199, nanos := 500000 }

theorem leapDay_isPlain : leapDay.IsPlain :=
  ⟨by decide, ⟨2024, 2, 29⟩, Date.onDay_iff.mpr (by decide), by decide⟩

/-- One minute east of UTC it is the first of March. -/
theorem leapDay_written : leapDay.Written 1 "2024-03-01t00:00:59.00050+00:01" := by
  have htext : "2024-03-01t00:00:59.00050+00:01" = String.ofList (Date.written ⟨2024, 3, 1⟩ ++
      't' :: Instant.clock 59 ++ '.' :: ['0', '0', '0', '5', '0'] ++
        ('+' :: decimals 2 0 ++ ':' :: decimals 2 1)) := by decide
  have hday : Date.OnDay 19783 ⟨2024, 3, 1⟩ := Date.onDay_iff.mpr (by decide)
  have hzone : Instant.Zone 1 ('+' :: decimals 2 0 ++ ':' :: decimals 2 1) :=
    .ahead (show 0 < 24 by decide) (show 1 < 60 by decide)
  rw [htext]
  exact .intro hday (by decide) (by decide) (by decide) (by decide)
    (.digits (by decide) (List.all_eq_true.mp rfl) rfl) hzone

theorem leapDay_round_trip :
    leapDay.IsPlain ∧ leapDay.write = "2024-02-29T23:59:59.000500Z" ∧
      decode read ({ (default : PipelineStatus) with startedAt := some leapDay }).toJson.render =
        .ok { (default : PipelineStatus) with startedAt := some leapDay } ∧
      decode read ((default : PipelineStatus).told "2024-03-01t00:00:59.00050+00:01").render =
        .ok { (default : PipelineStatus) with startedAt := some leapDay } := by
  refine ⟨leapDay_isPlain, by decide +kernel, (told_round_trip _).1 ?_, ?_⟩
  · rintro t ht
    obtain rfl := Option.some.inj ht
    exact leapDay_isPlain
  · exact ((told_round_trip default).2 leapDay leapDay_isPlain).decoded 1 _ leapDay_written

end PipelineStatus

end DocumentPipeline
