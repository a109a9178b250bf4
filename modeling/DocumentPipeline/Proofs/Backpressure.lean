import DocumentPipeline.Proofs.Accounting
import DocumentPipeline.Proofs.Handoffs
import DocumentPipeline.Proofs.Lines
import DocumentPipeline.Proofs.Workload
import Mathlib.Algebra.Order.BigOperators.Group.List
import Mathlib.Algebra.Order.Group.Nat

/-! # How much can be under way

Both queues are bounded. A worker has one item or payload at a time, and once it has ended it takes
no other. So what has entered the pipeline and has not come out of it is bounded by the room in the
queues and the number of workers, and no more than that is lost, however the workers end.
-/
namespace DocumentPipeline

namespace Event

/-- A client comes back with an outcome or an error. -/
def processReturn : Event → List (Nat × WorkItem)
  | processEnded i item (.value _) | processEnded i item (.error _) => [(i, item)]
  | _ => []

/-- The emitter comes back, with or without an error. -/
def emitReturn : Event → List (Nat × Payload)
  | emitEnded j payload (.value _) | emitEnded j payload (.error _) => [(j, payload)]
  | _ => []

/-- Whether a client or the emitter is called. -/
@[simp] def begins : Event → Bool
  | processBegan _ _ | emitBegan _ _ => true
  | _ => false

theorem length_processReturn_of_outcome? {i : Nat} {item : WorkItem}
    {r : Return ClientError Outcome} {o : Outcome} (h : r.outcome? = some o) :
    (processEnded i item r).processReturn.length = 1 := by
  cases r with
  | value | error => rfl
  | panic => cases h

theorem processCall_of_begins {e : Event} (h : e.begins = false) : e.processCall = [] := by
  cases e <;> simp_all

theorem emitCall_of_begins {e : Event} (h : e.begins = false) : e.emitCall = [] := by
  cases e <;> simp_all

theorem begins_of_not_isFlow {e : Event} (h : e.isFlow = false) : e.begins = false := by
  cases e <;> simp_all

theorem begins_of_isPolling {e : Event} (h : e.isPolling = true) : e.begins = false := by
  cases e <;> simp_all

end Event

/-- The item that a fetch worker's client has not returned, and may never return once the worker has
ended. -/
@[simp] def FetchStage.unreturned : FetchStage → Nat
  | processing _ _ | exited => 1
  | _ => 0

/-- The item that a fetch worker has not reported, and may never report. -/
@[simp] def FetchStage.unreported : FetchStage → Nat
  | processing _ _ | handing _ _ _ _ | exited => 1
  | _ => 0

/-- The payload that the emitter has not returned, and may never return. -/
@[simp] def EmitStage.unreturned : EmitStage → Nat
  | emitting _ | exited => 1
  | _ => 0

theorem FetchStage.unreturned_le (s : FetchStage) : s.unreturned ≤ 1 := by cases s <;> simp

theorem FetchStage.unreported_le (s : FetchStage) : s.unreported ≤ 1 := by cases s <;> simp

theorem EmitStage.unreturned_le (s : EmitStage) : s.unreturned ≤ 1 := by cases s <;> simp

theorem CallStage.begins_of_records {s : CallStage} {n : Nat} {e : Event} (h : s.records n e) :
    e.begins = false := by
  cases s <;> simp only [records] at h <;> grind [Event.begins, Event.begins_of_isPolling]

namespace Pipeline

/-- No client and no emitter is called. -/
def NoneBegun (p q : Pipeline) : Prop :=
  History.Adds (fun e => e.begins = false) p.history q.history

/-- Whatever was begun and has not come to its end is with a worker that is busy or has ended. -/
structure Outstanding (p : Pipeline) : Prop where
  called : (p.history.log Event.processCall).length ≤
    (p.history.log Event.processReturn).length + p.fetchTotal FetchStage.unreturned
  reported : (p.history.log Event.processCall).length ≤
    (p.history.log Event.report).length + p.fetchTotal FetchStage.unreported
  emitted : (p.history.log Event.emitCall).length ≤
    (p.history.log Event.emitReturn).length + p.emitTotal EmitStage.unreturned

variable {p q : Pipeline} {i j n : Nat} {t : Task} {e : Ending}

namespace NoneBegun

theorem of_sameFlow (h : SameFlow p q) : NoneBegun p q :=
  h.history.mono fun _ => Event.begins_of_not_isFlow

theorem processCall (h : NoneBegun p q) :
    q.history.log Event.processCall = p.history.log Event.processCall :=
  h.log fun _ => Event.processCall_of_begins

theorem emitCall (h : NoneBegun p q) :
    q.history.log Event.emitCall = p.history.log Event.emitCall :=
  h.log fun _ => Event.emitCall_of_begins

theorem refl (p : Pipeline) : NoneBegun p p := History.Adds.refl _

theorem record {e : Event} (he : e.begins = false) : NoneBegun p (p.record e) :=
  History.Adds.one he

theorem trans {r : Pipeline} (hpq : NoneBegun p q) (hqr : NoneBegun q r) : NoneBegun p r :=
  History.Adds.trans hpq hqr

/-- A finished item is reported, and no other is begun. -/
theorem finishItem {w : Fetcher} {item : WorkItem} {o : Outcome} {since : Nat} :
    NoneBegun p (p.finishItem i w item o since) :=
  .trans (q := { p.record (.reported i item o (p.now - since)) with
    totalProcessed := p.totalProcessed + 1 }) (.one rfl) (.of_sameFlow (.tryPoll (.refl _)))

theorem injected {k : Injection} {v : Pipeline × Verdict} (h : Injected p t k v) :
    NoneBegun p v.1 :=
  h.polling.mono fun _ => Event.begins_of_isPolling

/-- A client has come back with an outcome. -/
theorem returned {item : WorkItem} {r : Return ClientError Outcome} {o : Outcome}
    (h : NoneBegun (p.record (.processEnded i item r)) q) (hr : r.outcome? = some o) :
    (p.history.log Event.processReturn).length + 1 ≤
      (q.history.log Event.processReturn).length := by
  have hle := History.length_log_le Event.processReturn h.suffix
  rwa [Pipeline.record, History.log_cons, List.length_append,
    Event.length_processReturn_of_outcome? hr] at hle

end NoneBegun

theorem log_report_finishItem {w : Fetcher} {item : WorkItem} {o : Outcome} {since : Nat} :
    (p.finishItem i w item o since).history.log Event.report =
      p.history.log Event.report ++ [(i, item, o)] := by
  have hflow : SameFlow { p.record (.reported i item o (p.now - since)) with
      totalProcessed := p.totalProcessed + 1 } (p.finishItem i w item o since) :=
    .tryPoll (.refl _)
  rw [hflow.log Event.Flowless.report]
  simp [record]

/-- A fetch worker comes to another stage, and a total changes by its share alone. -/
theorem fetchTotal_set {f : FetchStage → Nat} {s u : FetchStage} (hu : p.fetchStage? i = some u)
    (hs : q.fetchStages = p.fetchStages.set i s) : q.fetchTotal f + f u = p.fetchTotal f + f s := by
  rw [fetchTotal, hs]
  exact sum_map_set f (getElem?_fetchStages.trans hu)

namespace Outstanding

/-- The workers have as much as before. -/
theorem of_totals (ho : Outstanding p) (ha : NoneBegun p q)
    (hc : q.fetchTotal FetchStage.unreturned = p.fetchTotal FetchStage.unreturned)
    (hr : q.fetchTotal FetchStage.unreported = p.fetchTotal FetchStage.unreported)
    (he : q.emitTotal EmitStage.unreturned = p.emitTotal EmitStage.unreturned) :
    Outstanding q := by
  obtain ⟨hcalled, hreported, hemitted⟩ := ho
  have hreturns := History.length_log_le Event.processReturn ha.suffix
  have hreports := History.length_log_le Event.report ha.suffix
  have hemits := History.length_log_le Event.emitReturn ha.suffix
  constructor
  · rw [ha.processCall, hc]; omega
  · rw [ha.processCall, hr]; omega
  · rw [ha.emitCall, he]; omega

theorem of_sameStages (ho : Outstanding p) (hs : SameStages p q) (ha : NoneBegun p q) :
    Outstanding q :=
  ho.of_totals ha hs.fetchTotal hs.fetchTotal hs.emitTotal

/-- A fetch worker comes to another stage; what it no longer has, it has brought to its end. -/
theorem of_set {s u : FetchStage} (ho : Outstanding p) (hu : p.fetchStage? i = some u)
    (hs : q.fetchStages = p.fetchStages.set i s) (he : q.emitStages = p.emitStages)
    (ha : NoneBegun p q)
    (hc : (p.history.log Event.processReturn).length + u.unreturned ≤
      (q.history.log Event.processReturn).length + s.unreturned)
    (hr : (p.history.log Event.report).length + u.unreported ≤
      (q.history.log Event.report).length + s.unreported) : Outstanding q := by
  obtain ⟨hcalled, hreported, hemitted⟩ := ho
  have hunreturned := fetchTotal_set (f := FetchStage.unreturned) hu hs
  have hunreported := fetchTotal_set (f := FetchStage.unreported) hu hs
  have hemits := History.length_log_le Event.emitReturn ha.suffix
  constructor
  · rw [ha.processCall]; omega
  · rw [ha.processCall]; omega
  · rw [ha.emitCall, emitTotal, he, ← emitTotal]; omega

/-- A fetch worker that has an item ends with it at worst. -/
theorem endFetcher {u : FetchStage} {w : Fetcher} (ho : Outstanding p)
    (hu : p.fetchStage? i = some u) : Outstanding (p.endFetcher i w e) := by
  have ha : NoneBegun p (p.endFetcher i w e) := .of_sameFlow (.endFetcher (.refl p))
  refine ho.of_set hu fetchStages_endFetcher emitStages_endFetcher ha ?_ ?_
  · exact Nat.add_le_add (History.length_log_le _ ha.suffix) u.unreturned_le
  · exact Nat.add_le_add (History.length_log_le _ ha.suffix) u.unreported_le

/-- A fetch worker that has brought its item to its end may come to any stage. -/
theorem of_moves {u : FetchStage} (ho : Outstanding p) (hu : p.fetchStage? i = some u)
    (hm : MovesFetcher i p q) (ha : NoneBegun p q)
    (hc : (p.history.log Event.processReturn).length + u.unreturned ≤
      (q.history.log Event.processReturn).length)
    (hr : (p.history.log Event.report).length + u.unreported ≤
      (q.history.log Event.report).length) : Outstanding q := by
  obtain ⟨⟨s, hs⟩, he⟩ := hm
  exact ho.of_set hu hs he ha (Nat.le_add_right_of_le hc) (Nat.le_add_right_of_le hr)

/-- A fetch worker without an item may come to any stage. -/
theorem of_free {u : FetchStage} (ho : Outstanding p) (hu : p.fetchStage? i = some u)
    (hc : u.unreturned = 0) (hr : u.unreported = 0) (hm : MovesFetcher i p q)
    (ha : NoneBegun p q) : Outstanding q := by
  refine ho.of_moves hu hm ha ?_ ?_
  · rw [hc]; exact History.length_log_le _ ha.suffix
  · rw [hr]; exact History.length_log_le _ ha.suffix

/-- A fetch worker without an item receives one and hands it to its client. -/
theorem receive {item : WorkItem} {now : Nat} {u : FetchStage} (ho : Outstanding p)
    (hu : p.fetchStage? i = some u) (hc : u.unreturned = 0) (hr : u.unreported = 0)
    (hs : q.fetchStages = p.fetchStages.set i (.processing item now))
    (he : q.emitStages = p.emitStages)
    (hh : q.history = ⟨now, .processBegan i item⟩ :: ⟨now, .received i (.data item)⟩ :: p.history) :
    Outstanding q := by
  obtain ⟨hcalled, hreported, hemitted⟩ := ho
  have hunreturned := fetchTotal_set (f := FetchStage.unreturned) hu hs
  have hunreported := fetchTotal_set (f := FetchStage.unreported) hu hs
  rw [hc, FetchStage.unreturned] at hunreturned
  rw [hr, FetchStage.unreported] at hunreported
  constructor
  · simp only [hh, History.log_cons, Event.processCall, Event.processReturn, List.length_append,
      List.length_nil, List.length_singleton]
    omega
  · simp only [hh, History.log_cons, Event.processCall, Event.report, List.length_append,
      List.length_nil, List.length_singleton]
    omega
  · rw [emitTotal, he, ← emitTotal]
    simpa [hh, Event.emitReturn] using hemitted

theorem fetcher {w : Fetcher} (ho : Outstanding p) (hw : p.fetchers[i]? = some w)
    (hf : FetcherMove p i w q) : Outstanding q := by
  have hst : p.fetchStage? i = some w.stage := by simp [fetchStage?, hw]
  have hm := hf.movesFetcher
  cases hf with
  | abort | notCreated => exact ho.endFetcher hst
  | create hs | acquire hs =>
    exact ho.of_free hst (by simp [hs]) (by simp [hs]) hm (NoneBegun.refl _)
  | created hs => exact ho.of_free hst (by simp [hs]) (by simp [hs]) hm (.record rfl)
  | receiveStop =>
    exact endFetcher (p := { Pipeline.record _ _ with intakeLock := _ })
      (ho.of_sameStages ⟨rfl, rfl⟩ (.one rfl)) hst
  | receiveItem hs =>
    exact ho.receive hst (by simp [hs]) (by simp [hs]) (fetchStages_setFetcher ..) rfl rfl
  | idle hs =>
    exact ho.of_free hst (by simp [hs]) (by simp [hs]) hm
      (.of_sameFlow (.tryPoll (.silent rfl rfl rfl rfl)))
  | injected hs hi =>
    exact ho.of_free hst (by simp [hs]) (by simp [hs]) hm
      ((NoneBegun.injected (inject?_injected hi)).trans
        (.of_sameFlow (.afterFetcherPoll (.refl _))))
  | @handOver item since r payload hs hr =>
    have ha : NoneBegun p (p.record (.processEnded i item r)) := .record rfl
    refine ho.of_set hst fetchStages_setFetcher rfl (ha.trans (.one rfl)) ?_ ?_
    · rw [hs]
      exact NoneBegun.returned (.one rfl) hr
    · simp [hs, setFetcher, record]
  | @settle item since r outcome hs hr =>
    have ha : NoneBegun p (p.record (.processEnded i item r)) := .record rfl
    refine ho.of_moves hst hm (ha.trans .finishItem) ?_ ?_
    · rw [hs]
      exact NoneBegun.finishItem.returned hr
    · rw [log_report_finishItem]
      simp [hs, record]
  | lose =>
    exact endFetcher (p := p.record _) (ho.of_sameStages ⟨rfl, rfl⟩ (.record rfl)) hst
  | @handed item payload since d hs =>
    have hplaced : NoneBegun p ({ p with
        outtake := p.outtake.push (.fetcher i) (.data payload) }.record
          (.payloadQueued i payload)) := .one rfl
    have hfinished (r : Pipeline) :
        NoneBegun r (r.finishItem i w item (.parsed payload) since) := .finishItem
    have ha := hplaced.trans (hfinished _)
    refine ho.of_moves hst hm ha ?_ ?_
    · rw [hs]
      exact History.length_log_le _ ha.suffix
    · rw [log_report_finishItem]
      simp [hs, record]
  | stalled =>
    exact endFetcher (p := Pipeline.record { p with outtake := _ } _)
      (ho.of_sameStages ⟨rfl, rfl⟩ (.one rfl)) hst

/-- An emit worker comes to another stage. -/
theorem of_setEmitter {s u : EmitStage} (ho : Outstanding p) (hu : p.emitStage? j = some u)
    (hs : q.emitStages = p.emitStages.set j s) (hf : q.fetchStages = p.fetchStages)
    (hh : History.Adds (fun e => e.worker? = some (.emitter j)) p.history q.history)
    (hc : (q.history.log Event.emitCall).length + (p.history.log Event.emitReturn).length +
      u.unreturned ≤ (p.history.log Event.emitCall).length +
        (q.history.log Event.emitReturn).length + s.unreturned) : Outstanding q := by
  obtain ⟨hcalled, hreported, hemitted⟩ := ho
  have hcalls : q.history.log Event.processCall = p.history.log Event.processCall :=
    hh.log fun e he => by cases e <;> simp_all
  have hreturns := History.length_log_le Event.processReturn hh.suffix
  have hreports := History.length_log_le Event.report hh.suffix
  have hunreturned := sum_map_set (s := s) EmitStage.unreturned (getElem?_emitStages.trans hu)
  rw [← hs, ← emitTotal, ← emitTotal] at hunreturned
  constructor
  · rw [hcalls, fetchTotal, hf, ← fetchTotal]; omega
  · rw [hcalls, fetchTotal, hf, ← fetchTotal]; omega
  · omega

/-- An emit worker that has a payload ends with it at worst. -/
theorem endEmitter {u : EmitStage} (ho : Outstanding p) (hu : p.emitStage? j = some u) :
    Outstanding (p.endEmitter j e) := by
  refine ho.of_setEmitter hu emitStages_endEmitter rfl (.one rfl) ?_
  have hu : u.unreturned ≤ EmitStage.exited.unreturned := u.unreturned_le
  have hcalls : (p.endEmitter j e).history.log Event.emitCall = p.history.log Event.emitCall := by
    simp [Pipeline.endEmitter, endWorker, record, release, setEmitter]
  have hreturns : (p.endEmitter j e).history.log Event.emitReturn =
      p.history.log Event.emitReturn := by
    simp [Pipeline.endEmitter, endWorker, record, release, setEmitter, Event.emitReturn]
  rw [hcalls, hreturns]
  omega

/-- An emit worker takes a step of its own. While the emitter has its payload, there is none. -/
theorem emitter {w : EmitWorker} (ho : Outstanding p) (hw : p.emitters[j]? = some w)
    (h : p.stepEmitter? j w = some q) : Outstanding q := by
  have hst : p.emitStage? j = some w.stage := by simp [emitStage?, hw]
  have hbusy {payload : Payload} (hs : w.stage = .emitting payload) : False := by
    simp [stepEmitter?, hs] at h
  cases stepEmitter?_move h with
  | abort => exact ho.endEmitter hst
  | queue hs | acquire hs =>
    refine ho.of_setEmitter hst emitStages_setEmitter rfl (.refl _) ?_
    simp [hs, queueEmitter, requestOuttake, setEmitter]
  | takeStop hs =>
    exact endEmitter (p := Pipeline.record { p with outtake := _, outtakeLock := _ } _)
      (ho.of_sameStages ⟨rfl, rfl⟩ (.one rfl)) hst
  | takePayload hs =>
    refine ho.of_setEmitter hst (emitStages_setEmitter ..) rfl (.trans (.one rfl) (.one rfl)) ?_
    simp [hs, setEmitter, record, Event.emitReturn]
    omega
  | delivered hs => exact (hbusy hs).elim
  | failed hs => exact (hbusy hs).elim

theorem abortEmitter {w : EmitWorker} (ho : Outstanding p) (hw : p.emitters[j]? = some w)
    (h : p.abortEmitter? j w = some q) : Outstanding q := by
  simp only [abortEmitter?, Option.ite_none_right_eq_some, Option.some.injEq] at h
  obtain ⟨-, rfl⟩ := h
  exact ho.endEmitter (u := w.stage) (by simp [emitStage?, hw])

/-- The emitter comes back, or panics and takes the worker down. -/
theorem emitReturns {w : EmitWorker} {r : Return EmitError Unit} (ho : Outstanding p)
    (hw : p.emitters[j]? = some w) (h : p.emitReturned? j w r = some q) : Outstanding q := by
  have hst : p.emitStage? j = some w.stage := by simp [emitStage?, hw]
  unfold emitReturned? at h
  split at h
  · next payload hs =>
    have hended : Outstanding (p.record (.emitEnded j payload r)) :=
      ho.of_sameStages ⟨rfl, rfl⟩ (.record rfl)
    have hback (hr : (Event.emitEnded j payload r).emitReturn.length = 1) :
        Outstanding ((p.record (.emitEnded j payload r)).queueEmitter j) := by
      refine ho.of_setEmitter hst emitStages_setEmitter rfl (.one rfl) ?_
      simp [hs, setEmitter, record, queueEmitter, requestOuttake, hr, Nat.add_assoc]
    cases r with
    | value => cases h; exact hback rfl
    | error err =>
      dsimp only at h
      split at h
      · cases h; exact hended.endEmitter hst
      · cases h; exact hback rfl
    | panic => cases h; exact hended.endEmitter hst
  · cases h

theorem call {s : CallStage} (ho : Outstanding p) (hc : CallMove p n s q) : Outstanding q := by
  have ha : NoneBegun p q := hc.records.mono fun _ => CallStage.begins_of_records
  by_cases hl : ∃ c, s = .launching c
  · obtain ⟨c, rfl⟩ := hl
    -- a worker that is launched has nothing yet
    rcases hc.launches with hs | ⟨hf, he⟩ | ⟨hf, he⟩
    · exact ho.of_sameStages hs ha
    · refine ho.of_totals ha ?_ ?_ ?_ <;> simp [fetchTotal, emitTotal, hf, he]
    · refine ho.of_totals ha ?_ ?_ ?_ <;> simp [fetchTotal, emitTotal, hf, he]
  · exact ho.of_sameStages (hc.sameStages fun c he => hl ⟨c, he⟩) ha

theorem step {a : Action} (ho : Outstanding p) (h : p.step a = some q) : Outstanding q := by
  cases step_taken h with
  | @invoke n request =>
    have hi := invoke_move p n request
    exact ho.of_sameStages hi.sameStages (hi.adds rfl fun _ => rfl)
  | cancel => exact ho.of_sameStages ⟨rfl, rfl⟩ (.one rfl)
  | close =>
    refine ho.of_sameStages (close_sameStages p) ?_
    unfold Pipeline.close
    split <;> exact .one rfl
  | drop => exact ho.of_sameStages (drop_sameStages p) (.one rfl)
  | tick => exact ho.of_sameStages ⟨rfl, rfl⟩ (.refl _)
  | call hm hs => exact ho.call (stepCall?_move hs)
  | fetcher hw hs => exact ho.fetcher hw (stepFetcher?_move hs)
  | emitter hw hs => exact ho.emitter hw hs
  | abortFetcher hw hs => exact ho.fetcher hw (abortFetcher?_move hs)
  | abortEmitter hw hs => exact ho.abortEmitter hw hs
  | clientReturns hw hs => exact ho.fetcher hw (clientReturned?_move hs)
  | processReturns hw hs => exact ho.fetcher hw (processReturned?_move hs)
  | emitReturns hw hs => exact ho.emitReturns hw hs

end Outstanding

/-- The items that clients are working on. -/
def processing (p : Pipeline) : List WorkItem :=
  p.fetchStages.filterMap fun
    | .processing item _ => some item
    | _ => none

/-- The payloads that the emitter is working on. -/
def emitting (p : Pipeline) : List Payload :=
  p.emitStages.filterMap fun
    | .emitting payload => some payload
    | _ => none

/-- How much can be under way, and how much can be lost. -/
structure Bounded (p : Pipeline) : Prop where
  intake : p.intake.messages.length ≤ p.settings.queueSize.toNat
  outtake : p.outtake.messages.length ≤ emitQueueSize
  processing : p.processing.length ≤ p.settings.numClients.toNat
  emitting : p.emitting.length ≤ p.settings.numEmitters.toNat
  /-- Calls that were cut off never come back. -/
  called : (p.history.log Event.processCall).length ≤
    (p.history.log Event.processReturn).length + p.settings.numClients.toNat
  emitted : (p.history.log Event.emitCall).length ≤
    (p.history.log Event.emitReturn).length + p.settings.numEmitters.toNat
  /-- The items put on the intake queue are those whose submission was acknowledged. -/
  acknowledged : (p.history.log Event.enqueued).filterMap Message.content? =
    (History.submissions p.history).flatten
  items : (History.submissions p.history).flatten.length ≤
    p.totalProcessed + p.settings.queueSize.toNat + p.settings.numClients.toNat
  payloads : (p.history.log Event.report).countP (fun x => x.2.2.status = .parseSuccess) ≤
    (p.history.log Event.emitReturn).length + emitQueueSize + p.settings.numEmitters.toNat

theorem sum_map_le_length {α : Type} {f : α → Nat} (hf : ∀ a, f a ≤ 1) (l : List α) :
    (l.map f).sum ≤ l.length := by
  have hle := List.sum_le_card_nsmul (l.map f) 1 (by simpa using fun a _ => hf a)
  simpa using hle

theorem Staffed.fetchTotal_le {f : FetchStage → Nat} (h : Staffed p) (hf : ∀ s, f s ≤ 1) :
    p.fetchTotal f ≤ p.settings.numClients.toNat := by
  have hle := sum_map_le_length hf p.fetchStages
  rw [fetchStages, List.length_map] at hle
  exact Nat.le_trans hle h.fetchers_le

theorem Staffed.emitTotal_le {f : EmitStage → Nat} (h : Staffed p) (hf : ∀ s, f s ≤ 1) :
    p.emitTotal f ≤ p.settings.numEmitters.toNat := by
  have hle := sum_map_le_length hf p.emitStages
  rw [emitStages, List.length_map] at hle
  exact Nat.le_trans hle h.emitters_le

/-- What was put on the intake queue is still there or was handed to a client. -/
theorem Balanced.enqueued_length (h : Balanced p) :
    ((p.history.log Event.enqueued).filterMap Message.content?).length ≤
      (p.history.log Event.processCall).length + p.intake.messages.length := by
  have hcalled := congrArg List.length (congrArg (List.map Prod.snd) h.called)
  rw [History.contents_map_snd, List.length_map] at hcalled
  rw [h.intake, List.filterMap_append, List.length_append, ← hcalled]
  exact Nat.add_le_add_left (List.length_filterMap_le _ _) _

/-- Every clean report has placed a payload, which is still on the outtake queue or was handed to
the emitter. -/
theorem Balanced.clean_length (h : Balanced p) :
    (p.history.log Event.report).countP (fun x => x.2.2.status = .parseSuccess) ≤
      (p.history.log Event.emitCall).length + p.outtake.messages.length := by
  have hemitted := congrArg List.length (congrArg (List.map Prod.snd) h.emitted)
  rw [History.contents_map_snd, List.length_map] at hemitted
  have hplaced := congrArg List.length (History.contents_outQueued p.history)
  rw [h.outtake, List.filterMap_append, List.length_append, ← hemitted, List.length_map,
    h.placement_length] at hplaced
  have := List.length_filterMap_le Message.content? p.outtake.messages
  omega

variable {settings : Settings} {origin : Instant}

theorem Reaches.outstanding (h : p.Reaches q) (hb : build settings origin = .built p) :
    Outstanding q := by
  obtain ⟨as, has⟩ := h
  refine run_induction (I := fun _ r => Outstanding r) has ?_ fun _ _ _ _ _ ih hs => ih.step hs
  obtain ⟨-, -, rfl⟩ := build_eq_built hb
  constructor <;> exact Nat.zero_le _

/-- In every state that can be reached, by whatever mix of submissions, closings, failures, panics
and repeated starts, no more is under way than fits, and no more is lost. -/
theorem Reaches.backpressure (h : p.Reaches q) (hb : build settings origin = .built p) :
    Bounded q := by
  have hbalanced := h.balanced hb
  have hlines := h.lines hb
  have hstaffed := h.staffed hb
  have hout := h.outstanding hb
  have hunreturned := hstaffed.fetchTotal_le FetchStage.unreturned_le
  have hunreported := hstaffed.fetchTotal_le FetchStage.unreported_le
  have hemitted := hstaffed.emitTotal_le EmitStage.unreturned_le
  have hintake := hlines.intake.fits
  have houttake := hlines.outtake.fits
  constructor
  · exact hintake
  · exact houttake
  · refine Nat.le_trans (List.length_filterMap_le _ _) ?_
    rw [fetchStages, List.length_map]
    exact hstaffed.fetchers_le
  · refine Nat.le_trans (List.length_filterMap_le _ _) ?_
    rw [emitStages, List.length_map]
    exact hstaffed.emitters_le
  · exact Nat.le_trans hout.called (Nat.add_le_add_left hunreturned _)
  · exact Nat.le_trans hout.emitted (Nat.add_le_add_left hemitted _)
  · exact (h.ordered hb).contents
  · have henqueued := hbalanced.enqueued_length
    have hreported := hout.reported
    rw [(h.ordered hb).contents] at henqueued
    rw [hbalanced.counted]
    omega
  · have hclean := hbalanced.clean_length
    have hdelivered := hout.emitted
    omega

/-- Of two acknowledged items, one is lost with its client and the payload of the other one is lost
with the emitter. -/
theorem cutShort_bounded :
    ∃ p q, build narrow default = .built p ∧ p.run cutShort = some q ∧
      (History.submissions q.history).flatten.length = 2 ∧ q.totalProcessed = 1 ∧
      (q.history.log Event.report).length = 1 ∧ (q.history.log Event.emitReturn).length = 0 ∧
      q.processing = [] ∧ q.emitting = [] ∧ Bounded q := by
  refine ⟨_, _, rfl, rfl, rfl, rfl, rfl, rfl, rfl, rfl, ?_⟩
  exact Reaches.backpressure ⟨cutShort, rfl⟩ (show build narrow default = _ from rfl)

end Pipeline

end DocumentPipeline
