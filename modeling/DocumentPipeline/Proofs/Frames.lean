import DocumentPipeline.Proofs.Moves
import DocumentPipeline.Proofs.Polls

/-! # What the parties leave alone

A step of a worker, of the clock or of a poll keeps the pending calls, the locks they hold
and all that is recorded of them. A step of a call keeps the stages of the workers and
records nothing of their work.
-/
namespace DocumentPipeline

namespace Event

/-- Whether the event belongs to a call: its beginning and end, its looks for room, or what it puts
on the intake queue. -/
@[simp] def isCalling : Event → Bool
  | invoked _ _ | replied _ _ | cancelled _ | tested _ _ | admitted _ _ | stopQueued .fetch => true
  | _ => false

/-- The worker whose work the event tells of. -/
@[simp] def worker? : Event → Option Task
  | clientCreated i | clientReleased i | received i _ | processBegan i _ | processEnded i _ _
  | payloadQueued i _ | reported i _ _ _ => some (.fetcher i)
  | taken j _ | emitBegan j _ | emitEnded j _ _ => some (.emitter j)
  | exited t _ => some t
  | _ => none

/-- The event leaves no trace in the share of a fetch worker in the logs of its work. -/
structure Elsewhere (i : Nat) (e : Event) : Prop where
  receipt : share i e.receipt = []
  processCall : share i e.processCall = []
  processResult : share i e.processResult = []
  report : share i e.report = []

theorem elsewhere_of_worker? {e : Event} {i : Nat} (h : e.worker? ≠ some (.fetcher i)) :
    e.Elsewhere i := by
  cases e with
  | received j m => exact ⟨share_of_ne (by simpa using h) m, rfl, rfl, rfl⟩
  | processBegan j item => exact ⟨rfl, share_of_ne (by simpa using h) item, rfl, rfl⟩
  | processEnded j item r => exact ⟨rfl, rfl, share_of_ne (by simpa using h) (item, r), rfl⟩
  | reported j item o ms => exact ⟨rfl, rfl, rfl, share_of_ne (by simpa using h) (item, o)⟩
  | _ => exact ⟨rfl, rfl, rfl, rfl⟩

theorem isCalling_of_isTracking {e : Event} (h : e.isTracking = true) : e.isCalling = false := by
  cases e <;> simp_all

theorem worker?_of_isTracking {e : Event} (h : e.isTracking = true) : e.worker? = none := by
  cases e <;> simp_all

end Event

namespace Lock

variable {l : Lock} {s t : Task}

theorem heldBy_request (h : l.heldBy t = true) : (l.request s).heldBy t = true := by
  unfold heldBy at h ⊢
  simp_all [List.head?_append]

theorem heldBy_release (h : l.heldBy t = true) (hne : s ≠ t) : (l.release s).heldBy t = true := by
  obtain ⟨line⟩ := l
  cases line with
  | nil => simp [heldBy] at h
  | cons u line =>
    obtain rfl : u = t := by simpa [heldBy] using h
    simp [heldBy, Ne.symm hne]

theorem eq_of_heldBy (hs : l.heldBy s = true) (ht : l.heldBy t = true) : s = t := by
  unfold heldBy at hs ht
  simp_all

end Lock

namespace Pipeline

/-- Nothing happens to the calls. -/
structure CallsKept (p q : Pipeline) : Prop extends Aborts p q where
  settings : q.settings = p.settings
  started : q.started = p.started
  stopsClaimed : q.stopsClaimed = p.stopsClaimed
  shuttingDown : p.shuttingDown = true → q.shuttingDown = true
  calls : q.calls = p.calls
  fetchers : q.fetchers.length = p.fetchers.length
  emitters : q.emitters.length = p.emitters.length
  producer : ∀ n, p.producerLock.heldBy (.call n) = true → q.producerLock.heldBy (.call n) = true
  tracker : ∀ n, p.trackerLock.heldBy (.call n) = true → q.trackerLock.heldBy (.call n) = true
  history : History.Adds (fun e => e.isCalling = false) p.history q.history

namespace CallsKept

variable {p q r : Pipeline} {t : Task}

theorem refl (p : Pipeline) : CallsKept p p where
  toAborts := .refl p
  settings := rfl
  started := rfl
  stopsClaimed := rfl
  shuttingDown := id
  calls := rfl
  fetchers := rfl
  emitters := rfl
  producer _ := id
  tracker _ := id
  history := .refl _

theorem trans (hpq : CallsKept p q) (hqr : CallsKept q r) : CallsKept p r where
  toAborts := hpq.toAborts.trans hqr.toAborts hqr.shuttingDown
  settings := hqr.settings.trans hpq.settings
  started := hqr.started.trans hpq.started
  stopsClaimed := hqr.stopsClaimed.trans hpq.stopsClaimed
  shuttingDown h := hqr.shuttingDown (hpq.shuttingDown h)
  calls := hqr.calls.trans hpq.calls
  fetchers := hqr.fetchers.trans hpq.fetchers
  emitters := hqr.emitters.trans hpq.emitters
  producer n h := hqr.producer n (hpq.producer n h)
  tracker n h := hqr.tracker n (hpq.tracker n h)
  history := hpq.history.trans hqr.history

theorem enqueued (h : CallsKept p q) :
    q.history.log Event.enqueued = p.history.log Event.enqueued := by
  refine h.history.log fun e he => ?_
  cases e with
  | stopQueued r => cases r <;> simp_all
  | _ => simp_all

theorem requestOf (h : CallsKept p q) (n : Nat) :
    History.requestOf n q.history = History.requestOf n p.history := by
  refine h.history.ignored ?_
  rintro ⟨time, e⟩ h he
  cases e <;> simp_all [History.requestOf]

theorem submissions (h : CallsKept p q) :
    History.submissions q.history = History.submissions p.history := by
  refine h.history.ignored ?_
  rintro ⟨time, e⟩ h he
  cases e <;> simp_all [History.submissions]

theorem of_polled (h : Polled p q) : CallsKept p q where
  toAborts := h.toAborts
  settings := h.settings
  started := h.started
  stopsClaimed := h.stopsClaimed
  shuttingDown := h.shuttingDown
  calls := h.calls
  fetchers := h.fetchers
  emitters := h.emitters
  producer n hn := by rw [h.producerLock]; exact hn
  tracker n hn := by rw [h.trackerLock]; exact hn
  history := h.history.mono fun _ => Event.isCalling_of_isTracking

theorem polled (h : CallsKept p q) (hp : Polled q r) : CallsKept p r := h.trans (of_polled hp)

theorem record {e : Event} (h : CallsKept p q) (he : e.isCalling = false) :
    CallsKept p (q.record e) :=
  h.trans { refl q with history := .one he }

theorem setFetcher {i : Nat} {s : FetchStage} (h : CallsKept p q) :
    CallsKept p (q.setFetcher i s) :=
  h.trans { refl q with toAborts := .setFetcher q, fetchers := by simp [Pipeline.setFetcher] }

theorem setEmitter {j : Nat} {s : EmitStage} (h : CallsKept p q) :
    CallsKept p (q.setEmitter j s) :=
  h.trans { refl q with emitters := by simp [Pipeline.setEmitter] }

theorem requestTracker (h : CallsKept p q) : CallsKept p (q.requestTracker t) :=
  h.trans { refl q with tracker := fun _ hn => Lock.heldBy_request hn }

theorem requestProducer (h : CallsKept p q) : CallsKept p (q.requestProducer t) :=
  h.trans { refl q with producer := fun _ hn => Lock.heldBy_request hn }

theorem releaseTracker (h : CallsKept p q) (ht : ∀ n, t ≠ .call n) :
    CallsKept p (q.releaseTracker t) :=
  h.trans { refl q with tracker := fun n hn => Lock.heldBy_release hn (ht n) }

theorem queueFetcher {i : Nat} (h : CallsKept p q) : CallsKept p (q.queueFetcher i) :=
  (h.setFetcher (i := i) (s := .queuing)).trans { refl _ with }

theorem queueEmitter {j : Nat} (h : CallsKept p q) : CallsKept p (q.queueEmitter j) :=
  (h.setEmitter (j := j) (s := .queuing)).trans { refl _ with }

theorem endWorker {e : Ending} (h : CallsKept p q) (ht : ∀ n, t ≠ .call n) :
    CallsKept p (q.endWorker t e) :=
  h.trans
    { refl q with
      producer := fun n hn => Lock.heldBy_release hn (ht n)
      tracker := fun n hn => Lock.heldBy_release hn (ht n)
      history := .one rfl }

theorem endFetcher {i : Nat} {w : Fetcher} {e : Ending} (h : CallsKept p q) :
    CallsKept p (q.endFetcher i w e) := by
  unfold Pipeline.endFetcher
  refine endWorker (setFetcher ?_) (by simp)
  split
  · exact h.record rfl
  · exact h

theorem endEmitter {j : Nat} {e : Ending} (h : CallsKept p q) :
    CallsKept p (q.endEmitter j e) :=
  endWorker h.setEmitter (by simp)

theorem injected {i : Injection} {v : Pipeline × Verdict} (h : Injected p t i v) :
    CallsKept p v.1 := by
  have hpush : CallsKept p
      ({ p with outtake := p.outtake.push t .stop }.record (.stopQueued .emit)) :=
    record { refl p with } rfl
  cases h with
  | last hs hr => exact hpush.polled (.endInjection _)
  | next hs hr => exact hpush.polled (.queueEmitStop _ _ _)
  | @stalled q f hs hd hq hf =>
    subst hq
    have hleave : CallsKept p
        ({ p with outtake := p.outtake.leave t }.record (.handoffStalled t .emitStop)) :=
      record { refl p with } rfl
    refine polled (hleave.trans ?_) (.fail _ f)
    exact { refl _ with }

theorem afterFetcherPoll {i : Nat} {w : Fetcher} {v : Pipeline × Verdict} (h : CallsKept p v.1) :
    CallsKept p (afterFetcherPoll i w v) := by
  obtain ⟨q, v⟩ := v
  cases v with
  | failed e => exact h.endFetcher
  | active b => exact .queueFetcher (releaseTracker h (by simp))
  | injecting i => exact h.setFetcher

theorem tryPoll {i : Nat} {w : Fetcher} (h : CallsKept p q) : CallsKept p (q.tryPoll i w) := by
  unfold Pipeline.tryPoll
  split
  · exact afterFetcherPoll (h.requestTracker.polled (.poll _ _))
  · exact h.queueFetcher

theorem finishItem {i since : Nat} {w : Fetcher} {item : WorkItem} {o : Outcome}
    (h : CallsKept p q) : CallsKept p (q.finishItem i w item o since) :=
  tryPoll ((h.record (e := .reported i item o (q.now - since)) rfl).trans { refl _ with })

theorem close (p : Pipeline) : CallsKept p p.close := by
  unfold Pipeline.close
  refine record ?_ rfl
  split
  · exact refl p
  · exact of_polled (.abortAll p)

theorem drop (p : Pipeline) : CallsKept p p.drop := record (of_polled (.abortAll p)) rfl

end CallsKept

/-- A step of a fetch worker is no step of a call. -/
theorem FetcherMove.callsKept {p q : Pipeline} {i : Nat} {w : Fetcher} (h : FetcherMove p i w q) :
    CallsKept p q := by
  have hr : CallsKept p p := .refl p
  cases h with
  | abort | notCreated => exact hr.endFetcher
  | create | acquire => exact hr.setFetcher
  | created => exact (hr.record rfl).queueFetcher
  | receiveStop =>
    exact .endFetcher (CallsKept.trans (.record (q := { p with intake := _ }) { hr with } rfl)
      { CallsKept.refl _ with })
  | @receiveItem d item ms =>
    exact .record (.setFetcher (CallsKept.trans
      (.record (q := { p with intake := _ }) { hr with } rfl) { CallsKept.refl _ with })) rfl
  | idle => exact .tryPoll { hr with }
  | handOver =>
    exact .setFetcher (.record ((hr.record rfl).trans { CallsKept.refl _ with }) rfl)
  | settle => exact (hr.record rfl).finishItem
  | lose => exact (hr.record rfl).endFetcher
  | handed => exact .finishItem (.record { hr with } rfl)
  | stalled => exact .endFetcher (.record { hr with } rfl)
  | injected hs hi => exact .afterFetcherPoll (.injected (inject?_injected hi))

/-- A step of an emit worker is no step of a call. -/
theorem EmitterMove.callsKept {p q : Pipeline} {j : Nat} {w : EmitWorker}
    (h : EmitterMove p j w q) : CallsKept p q := by
  have hr : CallsKept p p := .refl p
  cases h with
  | abort => exact hr.endEmitter
  | queue => exact hr.queueEmitter
  | acquire => exact hr.setEmitter
  | takeStop => exact .endEmitter (.record { hr with } rfl)
  | takePayload => exact .record (.setEmitter (.record { hr with } rfl)) rfl
  | delivered => exact (hr.record rfl).queueEmitter
  | failed => exact (hr.record rfl).endEmitter

/-- A worker does nothing; it can be launched. -/
structure Idles (t : Task) (p q : Pipeline) : Prop where
  stage : ∀ i, t = .fetcher i → q.fetchStage? i = p.fetchStage? i ∨
    p.fetchStage? i = none ∧ q.fetchStage? i = some .launched
  history : History.Adds (fun e => e.worker? ≠ some t) p.history q.history

namespace Idles

variable {p q r : Pipeline} {s t : Task}

theorem silent (hs : q.fetchers = p.fetchers) (hh : q.history = p.history) : Idles t p q :=
  ⟨fun i _ => .inl (by rw [fetchStage?, fetchStage?, hs]), hh ▸ .refl _⟩

theorem single {x : Entry} (hs : q.fetchers = p.fetchers) (hh : q.history = x :: p.history)
    (hx : x.event.worker? ≠ some t) : Idles t p q :=
  ⟨fun i _ => .inl (by rw [fetchStage?, fetchStage?, hs]), hh ▸ .one hx⟩

theorem refl (p : Pipeline) : Idles t p p := silent rfl rfl

theorem trans (hpq : Idles t p q) (hqr : Idles t q r) : Idles t p r where
  stage i hi := by
    have hp := hpq.stage i hi
    have hq := hqr.stage i hi
    grind
  history := hpq.history.trans hqr.history

theorem polled (h : Idles t p q) (hp : Polled q r) : Idles t p r := by
  refine h.trans ⟨fun i _ => .inl (hp.fetchStage i), hp.history.mono fun e he => ?_⟩
  rw [Event.worker?_of_isTracking he]
  simp

theorem record {e : Event} (h : Idles t p q) (he : e.worker? ≠ some t) :
    Idles t p (q.record e) :=
  h.trans (single rfl rfl he)

theorem setFetcher {i : Nat} {stage : FetchStage} (h : Idles t p q) (hne : t ≠ .fetcher i) :
    Idles t p (q.setFetcher i stage) := by
  refine h.trans ⟨?_, .refl _⟩
  rintro k rfl
  have hik : i ≠ k := fun he => hne (by rw [he])
  exact .inl (by simp [fetchStage?, Pipeline.setFetcher, hik])

theorem endWorker {e : Ending} (h : Idles t p q) (hne : s ≠ t) : Idles t p (q.endWorker s e) :=
  h.trans (single rfl rfl (by simpa using hne))

theorem endFetcher {i : Nat} {w : Fetcher} {e : Ending} (h : Idles t p q)
    (hne : t ≠ .fetcher i) : Idles t p (q.endFetcher i w e) := by
  unfold Pipeline.endFetcher
  refine endWorker (setFetcher ?_ hne) hne.symm
  split
  · exact h.record (by simpa using hne.symm)
  · exact h

theorem endEmitter {j : Nat} {e : Ending} (h : Idles t p q) (hne : t ≠ .emitter j) :
    Idles t p (q.endEmitter j e) :=
  endWorker (h.trans (silent rfl rfl)) hne.symm

theorem queueFetcher {i : Nat} (h : Idles t p q) (hne : t ≠ .fetcher i) :
    Idles t p (q.queueFetcher i) :=
  (h.setFetcher hne).trans (silent rfl rfl)

theorem reply {n : Nat} {a : Reply} (h : Idles t p q) : Idles t p (q.reply n a) :=
  h.trans (single rfl rfl (by simp))

theorem setCall {n : Nat} {stage : CallStage} (h : Idles t p q) : Idles t p (q.setCall n stage) :=
  h.trans (silent rfl rfl)

theorem launch {role : Role} (h : Idles t p q) : Idles t p (q.launch s role) := by
  cases role with
  | emit => exact h.trans (single rfl rfl (by simp))
  | fetch =>
    refine h.trans ⟨?_, .one (by simp)⟩
    rintro i rfl
    simp only [fetchStage?, Pipeline.launch, Pipeline.record, List.getElem?_append]
    grind

theorem injected {i : Injection} {v : Pipeline × Verdict} (h : Injected p s i v) :
    Idles t p v.1 := by
  have hpush : Idles t p
      ({ p with outtake := p.outtake.push s .stop }.record (.stopQueued .emit)) :=
    single rfl rfl (by simp)
  cases h with
  | last hs hr => exact hpush.polled (.endInjection _)
  | next hs hr => exact hpush.polled (.queueEmitStop _ _ _)
  | @stalled q f hs hd hq hf =>
    subst hq
    refine polled ?_ (.fail _ f)
    exact single rfl rfl (by simp)

theorem afterOfferPoll {n : Nat} {item : WorkItem} {wait : Wait} {v : Pipeline × Verdict}
    (h : Idles t p v.1) : Idles t p (afterOfferPoll n item wait v) := by
  obtain ⟨q, v⟩ := v
  cases v with
  | failed e => exact h.reply
  | active b => exact h.trans (silent rfl rfl)
  | injecting i => exact h.setCall

theorem afterCheckPoll {n : Nat} {v : Pipeline × Verdict} (h : Idles t p v.1) :
    Idles t p (afterCheckPoll n v) := by
  obtain ⟨q, v⟩ := v
  cases v with
  | failed e => exact h.reply
  | active b => exact h.reply
  | injecting i => exact h.setCall

theorem afterFetcherPoll {i : Nat} {w : Fetcher} {v : Pipeline × Verdict} (h : Idles t p v.1)
    (hne : t ≠ .fetcher i) : Idles t p (afterFetcherPoll i w v) := by
  obtain ⟨q, v⟩ := v
  cases v with
  | failed e => exact h.endFetcher hne
  | active b => exact queueFetcher (h.trans (silent rfl rfl)) hne
  | injecting i => exact h.setFetcher hne

theorem tryPoll {i : Nat} {w : Fetcher} (h : Idles t p q) (hne : t ≠ .fetcher i) :
    Idles t p (q.tryPoll i w) := by
  unfold Pipeline.tryPoll
  split
  · refine afterFetcherPoll ?_ hne
    have hr : Idles t p (q.requestTracker (.fetcher i)) := h.trans (silent rfl rfl)
    exact hr.polled (.poll _ _)
  · exact h.queueFetcher hne

theorem finishItem {i since : Nat} {w : Fetcher} {item : WorkItem} {o : Outcome}
    (h : Idles t p q) (hne : t ≠ .fetcher i) : Idles t p (q.finishItem i w item o since) := by
  refine tryPoll (h.trans ?_) hne
  exact single rfl rfl (by simpa using hne.symm)

/-- The share of a fetch worker in a log of its own work stays as it is. -/
theorem share {α : Type} {i : Nat} {f : Event → List (Nat × α)} (h : Idles (.fetcher i) p q)
    (hf : ∀ {e}, Event.Elsewhere i e → DocumentPipeline.share i (f e) = []) :
    DocumentPipeline.share i (q.history.log f) = DocumentPipeline.share i (p.history.log f) :=
  h.history.ignored (F := fun h => DocumentPipeline.share i (h.log f)) fun x h hx => by
    simp [hf (Event.elsewhere_of_worker? hx)]

/-- Nothing is said about the end of the worker. -/
theorem mem_exit {e : Ending} (h : Idles t p q) :
    (t, e) ∈ q.history.log Event.exit ↔ (t, e) ∈ p.history.log Event.exit := by
  refine iff_of_eq (h.history.ignored (F := fun h => (t, e) ∈ h.log Event.exit) ?_)
  rintro ⟨time, e⟩ h he
  cases e <;> simp_all [eq_comm]

end Idles

variable {p q : Pipeline} {t : Task}

theorem Invocation.idles {n : Nat} {request : Request} (h : Invocation p n request q) :
    Idles t p q := by
  cases h with
  | start | check | status | offer | batch | finish => exact .silent rfl rfl
  | batchRefused | batchTooLarge | batchEmpty | finishEarly | finishLate => exact .reply (.refl p)
  | finishAgain => exact .reply (.silent rfl rfl)

/-- No worker works while a call takes a step. -/
theorem CallMove.idles {n : Nat} {stage : CallStage} (h : CallMove p n stage q) :
    Idles t p q := by
  have hr : Idles t p p := .refl p
  cases h with
  | startedBefore | offerRefused | unsent | batchRefused | noStops | read => exact hr.reply
  | launching => exact hr.setCall
  | launchFetcher | launchEmitter => exact hr.launch.setCall
  | opened => exact .reply (.silent rfl rfl)
  | offerAccepted => exact .silent rfl rfl
  | offerPolled => exact .afterOfferPoll (hr.polled (.poll _ _))
  | offerInjected hi => exact .afterOfferPoll (.injected (inject?_injected hi))
  | sent => exact .reply (.single rfl rfl (by simp))
  | batchAdmitted =>
    have htested : Idles t p (p.record (.tested n p.intake.free)) := .record hr (by simp)
    exact .reply (htested.trans (.single rfl rfl (by simp)))
  | batchExpired => exact .reply (.record hr (by simp))
  | batchPaused => exact .setCall (.record hr (by simp))
  | firstStop => exact .single rfl rfl (by simp)
  | lastStop => exact .reply (.single rfl rfl (by simp))
  | nextStop =>
    have hpush : Idles t p
        ({ p with intake := p.intake.push (.call n) .stop }.record (.stopQueued .fetch)) :=
      .single rfl rfl (by simp)
    exact hpush.trans (.single rfl rfl (by simp))
  | stopStalled => exact .single rfl rfl (by simp)
  | stalledOut => exact .reply (hr.polled (.fail _ _))
  | checked => exact .afterCheckPoll (hr.polled (.poll _ _))
  | checkInjected hi => exact .afterCheckPoll (.injected (inject?_injected hi))

/-- A fetch worker works alone. -/
theorem FetcherMove.idles {i : Nat} {w : Fetcher} (h : FetcherMove p i w q)
    (hne : t ≠ .fetcher i) : Idles t p q := by
  have hr : Idles t p p := .refl p
  have hown : some (Task.fetcher i) ≠ some t := by simpa using hne.symm
  cases h with
  | abort | notCreated => exact hr.endFetcher hne
  | create | acquire => exact hr.setFetcher hne
  | created => exact .queueFetcher (.record hr hown) hne
  | receiveStop => exact .endFetcher (.single rfl rfl hown) hne
  | @receiveItem d item ms =>
    have hreceived : Idles t p
        ({ p with intake := { p.intake with messages := ms } }.record (.received i (.data item))) :=
      .single rfl rfl hown
    exact .record (.setFetcher (hreceived.trans (.silent rfl rfl)) hne) hown
  | idle => exact .tryPoll (.silent rfl rfl) hne
  | @handOver item since r payload =>
    have hended : Idles t p (p.record (.processEnded i item r)) := .record hr hown
    exact .setFetcher (.record (hended.trans (.silent rfl rfl)) (by simp)) hne
  | settle => exact .finishItem (.record hr hown) hne
  | lose => exact .endFetcher (.record hr hown) hne
  | handed => exact .finishItem (.single rfl rfl hown) hne
  | stalled => exact .endFetcher (.single rfl rfl (by simp)) hne
  | injected hs hi => exact .afterFetcherPoll (.injected (inject?_injected hi)) hne

/-- An emit worker works alone. -/
theorem EmitterMove.idles {j : Nat} {w : EmitWorker} (h : EmitterMove p j w q)
    (hne : t ≠ .emitter j) : Idles t p q := by
  have hr : Idles t p p := .refl p
  have hown : some (Task.emitter j) ≠ some t := by simpa using hne.symm
  cases h with
  | abort => exact hr.endEmitter hne
  | queue | acquire => exact .silent rfl rfl
  | takeStop => exact .endEmitter (.single rfl rfl hown) hne
  | @takePayload payload ms =>
    have htaken : Idles t p
        ({ p with
            outtake := { p.outtake with messages := ms }
            outtakeLock := p.outtakeLock.release (.emitter j) }.record
          (.taken j (.data payload))) :=
      .single rfl rfl hown
    exact .record (htaken.trans (.silent rfl rfl)) hown
  | @delivered payload r =>
    have hended : Idles t p (p.record (.emitEnded j payload r)) := .record hr hown
    exact hended.trans (.silent rfl rfl)
  | failed => exact .endEmitter (.record hr hown) hne

theorem close_idles (p : Pipeline) : Idles t p p.close := by
  unfold Pipeline.close
  refine .record ?_ (by simp)
  split
  · exact .refl p
  · exact Idles.polled (.refl p) (.abortAll p)

theorem drop_idles (p : Pipeline) : Idles t p p.drop :=
  .record (Idles.polled (.refl p) (.abortAll p)) (by simp)

theorem CallMove.settings {n : Nat} {stage : CallStage} (h : CallMove p n stage q) :
    q.settings = p.settings := by
  have hoffer (n item wait) (v : Pipeline × Verdict) :
      (afterOfferPoll n item wait v).settings = v.1.settings := by
    obtain ⟨q, v⟩ := v
    cases v <;> rfl
  have hcheck (n) (v : Pipeline × Verdict) : (afterCheckPoll n v).settings = v.1.settings := by
    obtain ⟨q, v⟩ := v
    cases v <;> rfl
  cases h with
  | offerPolled => rw [hoffer, (Polled.poll _ _).settings]
  | offerInjected hi => rw [hoffer, (CallsKept.injected (inject?_injected hi)).settings]
  | checked => rw [hcheck, (Polled.poll _ _).settings]
  | checkInjected hi => rw [hcheck, (CallsKept.injected (inject?_injected hi)).settings]
  | _ => rfl

/-- The settings never change. -/
theorem Move.settings (h : Move p q) : q.settings = p.settings := by
  cases h with
  | invoke hn hi => cases hi <;> rfl
  | cancel | tick => rfl
  | close => exact (CallsKept.close p).settings
  | drop => exact (CallsKept.drop p).settings
  | call hm hc => exact hc.settings
  | fetcher hw hf => exact hf.callsKept.settings
  | emitter hw he => exact he.callsKept.settings

theorem Reaches.settings (h : p.Reaches q) : q.settings = p.settings :=
  h.invariant (I := fun r => r.settings = p.settings) rfl fun _ _ _ ih hm => hm.settings.trans ih

end Pipeline

end DocumentPipeline
