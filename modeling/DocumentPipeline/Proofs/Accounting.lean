import DocumentPipeline.Proofs.Duties
import DocumentPipeline.Proofs.Submissions

/-! # Nothing is done twice

Whatever ends the workers, an admitted item reaches a client once at most, a clean result
places its payload once and only after that is reported, and a payload reaches the emitter
once at most. Each log is compared with the one before it on the way of an item.
-/
namespace DocumentPipeline

namespace History

/-- The payloads on the outtake queue are those that the fetch workers placed there. -/
theorem contents_outQueued (h : History) :
    (h.log Event.outQueued).filterMap Message.content? = (h.log Event.placement).map Prod.snd := by
  induction h with
  | nil => rfl
  | cons x h ih =>
    rw [log_cons, log_cons, List.filterMap_append, List.map_append, ih]
    congr 1
    cases hx : x.event with
    | stopQueued role => cases role <;> rfl
    | _ => rfl

/-- The items put on the intake queue are its messages without the signals. -/
theorem contents_enqueued {items : List (List WorkItem)} {k : Nat} :
    (items.flatMap (List.map Message.data) ++
      List.replicate k (.stop : Message WorkItem)).filterMap Message.content? = items.flatten := by
  have hdata (l : List WorkItem) : (l.map Message.data).filterMap Message.content? = l := by
    simp [List.filterMap_map, Function.comp_def, Message.content?]
  have hstop : (List.replicate k (.stop : Message WorkItem)).filterMap Message.content? = [] := by
    simp [List.filterMap_replicate, Message.content?]
  rw [List.filterMap_append, hstop, List.append_nil]
  induction items with
  | nil => rfl
  | cons l items ih => rw [List.flatMap_cons, List.filterMap_append, hdata, ih, List.flatten_cons]

/-- What one party got out of a queue, by worker, and the messages themselves. -/
theorem contents_map_snd {α : Type} (l : List (Nat × Message α)) :
    (l.filterMap fun x => x.2.content?.map (x.1, ·)).map Prod.snd =
      (l.map Prod.snd).filterMap Message.content? := by
  rw [List.map_filterMap, List.filterMap_map]
  refine List.filterMap_congr fun x _ => ?_
  obtain ⟨i, m⟩ := x
  cases m <;> rfl

end History

namespace Pipeline

/-- The way of items and payloads so far. -/
structure Accounted (p : Pipeline) : Prop where
  /-- Clients were called with the admitted items in order, with each of them once at most. -/
  called : (p.history.log Event.processCall).map Prod.snd <+:
    (History.submissions p.history).flatten
  /-- A worker gets one result for a call. -/
  answered : ∀ i, (History.resultsOf i p.history).map Prod.fst <+: History.callsOf i p.history
  /-- A worker reports a result once at most, as the result asks. -/
  reported : ∀ i,
    (History.reportsOf i p.history).map some <+: (History.resultsOf i p.history).map due
  counted : p.totalProcessed = (p.history.log Event.report).length
  /-- A payload on the outtake queue is that of a clean report, one for each. -/
  placed : (p.history.log Event.placement) =
    (p.history.log Event.report).filterMap fun x => x.2.2.clean?.map (x.1, ·)
  contents : (p.history.log Event.outQueued).filterMap Message.content? =
    (p.history.log Event.placement).map Prod.snd
  clean : (p.history.log Event.placement).length =
    (p.history.log Event.report).countP fun x => x.2.2.status = .parseSuccess
  /-- The emitter was called with the payloads in order, with each of them once at most. -/
  emitted : (p.history.log Event.emitCall).map Prod.snd <+:
    (p.history.log Event.placement).map Prod.snd

namespace Balanced

variable {p : Pipeline}

/-- The clients have seen the items of the messages received so far. -/
theorem called_first (hb : Balanced p) : (p.history.log Event.processCall).map Prod.snd <+:
    (p.history.log Event.enqueued).filterMap Message.content? := by
  rw [hb.called, History.contents_map_snd, hb.intake, List.filterMap_append]
  exact List.prefix_append _ _

/-- The emitter has seen the payloads of the messages taken so far. -/
theorem emitted_first (hb : Balanced p) : (p.history.log Event.emitCall).map Prod.snd <+:
    (p.history.log Event.placement).map Prod.snd := by
  rw [hb.emitted, History.contents_map_snd, ← History.contents_outQueued, hb.outtake,
    List.filterMap_append]
  exact List.prefix_append _ _

theorem placement_length (hb : Balanced p) : (p.history.log Event.placement).length =
    (p.history.log Event.report).countP fun x => x.2.2.status = .parseSuccess := by
  rw [hb.placed]
  induction p.history.log Event.report with
  | nil => rfl
  | cons x l ih =>
    obtain ⟨i, item, outcome⟩ := x
    rw [List.countP_cons, List.filterMap_cons]
    cases outcome <;> simpa [Outcome.clean?, Outcome.status] using ih

end Balanced

theorem Ordered.contents {p : Pipeline} (h : Ordered p) :
    (p.history.log Event.enqueued).filterMap Message.content? =
      (History.submissions p.history).flatten := by
  obtain ⟨k, hk⟩ := h.queued
  rw [hk, History.contents_enqueued]

variable {settings : Settings} {origin : Instant} {p q : Pipeline}

/-- In every state that can be reached, by whatever mix of submissions, announcements,
closings, failures, panics and stalls, nothing has been done twice. -/
theorem Reaches.accounted (h : p.Reaches q) (hb : build settings origin = .built p) :
    Accounted q where
  called := by
    rw [← (h.ordered hb).contents]
    exact (h.balanced hb).called_first
  answered i := by
    obtain ⟨stops, busy, unreported, hl, -⟩ := h.ledger hb i
    rw [hl.calls]
    exact List.prefix_append _ _
  reported i := by
    obtain ⟨stops, busy, unreported, hl, -⟩ := h.ledger hb i
    rw [hl.reports]
    exact List.prefix_append _ _
  counted := (h.balanced hb).counted
  placed := (h.balanced hb).placed
  contents := History.contents_outQueued _
  clean := (h.balanced hb).placement_length
  emitted := (h.balanced hb).emitted_first

/-- Two items are admitted. The payload of the first one is with the emitter and the second
one is with its client when the pipeline is closed. -/
def cutShort : List Action :=
  .invoke 0 .start :: List.replicate 4 (.proceed (.call 0)) ++
    [.invoke 1 (.offerBatch [default, default] .endless), .proceed (.call 1),
      .proceed (.fetcher 0), .clientReturns 0 (.value ()), .proceed (.fetcher 0),
      .proceed (.fetcher 0), .processReturns 0 (.value (.parsed default)), .proceed (.fetcher 0),
      .proceed (.fetcher 0), .proceed (.fetcher 0),
      .proceed (.emitter 0), .proceed (.emitter 0), .proceed (.emitter 0), .close,
      .abort (.fetcher 0), .abort (.emitter 0)]

theorem cutShort_accounted :
    ∃ p q, build narrow default = .built p ∧ p.run cutShort = some q ∧
      (q.history.log Event.processCall).length = 2 ∧ (q.history.log Event.report).length = 1 ∧
      (q.history.log Event.emitCall).length = 1 ∧ Accounted q := by
  refine ⟨_, _, rfl, rfl, rfl, rfl, rfl, ?_⟩
  exact Reaches.accounted ⟨cutShort, rfl⟩ (show build narrow default = _ from rfl)

end Pipeline

end DocumentPipeline
