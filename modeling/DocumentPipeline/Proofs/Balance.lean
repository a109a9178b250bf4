import DocumentPipeline.Proofs.Moves
import DocumentPipeline.Proofs.Polls

/-! # The books of a pipeline balance

What entered a queue is what was taken out of it, followed by what still waits in it.
Every item taken is processed, every clean report has placed its payload, every payload
taken is emitted, and the counter counts the reports. This holds after every step, however
the workers end, since each step makes both of its entries at once.
-/
namespace DocumentPipeline

/-- The event leaves no trace in the logs of items, payloads and signals. -/
structure Event.Flowless (e : Event) : Prop where
  enqueued : e.enqueued = []
  receipt : e.receipt = []
  processCall : e.processCall = []
  processResult : e.processResult = []
  report : e.report = []
  placement : e.placement = []
  outQueued : e.outQueued = []
  taking : e.taking = []
  emitCall : e.emitCall = []

theorem Event.flowless_of_not_isFlow {e : Event} (h : e.isFlow = false) : e.Flowless := by
  cases e <;> first | constructor <;> rfl | cases h

namespace Pipeline

/-- Nothing is moved or recorded that concerns items, payloads and signals. -/
structure SameFlow (p q : Pipeline) : Prop where
  intake : q.intake.messages = p.intake.messages
  outtake : q.outtake.messages = p.outtake.messages
  counted : q.totalProcessed = p.totalProcessed
  history : History.Adds (fun e => e.isFlow = false) p.history q.history

namespace SameFlow

variable {p q r : Pipeline}

/-- Nothing at all is recorded. -/
theorem silent (hi : q.intake.messages = p.intake.messages)
    (ho : q.outtake.messages = p.outtake.messages) (hc : q.totalProcessed = p.totalProcessed)
    (hh : q.history = p.history) : SameFlow p q :=
  ⟨hi, ho, hc, hh ▸ .refl _⟩

/-- One event is recorded. -/
theorem single {x : Entry} (hi : q.intake.messages = p.intake.messages)
    (ho : q.outtake.messages = p.outtake.messages) (hc : q.totalProcessed = p.totalProcessed)
    (hh : q.history = x :: p.history) (hx : x.event.isFlow = false) : SameFlow p q :=
  ⟨hi, ho, hc, hh ▸ .one hx⟩

theorem refl (p : Pipeline) : SameFlow p p := silent rfl rfl rfl rfl

theorem trans (hpq : SameFlow p q) (hqr : SameFlow q r) : SameFlow p r :=
  ⟨hqr.intake.trans hpq.intake, hqr.outtake.trans hpq.outtake, hqr.counted.trans hpq.counted,
    hpq.history.trans hqr.history⟩

/-- A log of flow events stays as it is. -/
theorem log {α : Type} {f : Event → List α} (h : SameFlow p q)
    (hf : ∀ {e}, Event.Flowless e → f e = []) : q.history.log f = p.history.log f :=
  h.history.log fun _ he => hf (Event.flowless_of_not_isFlow he)

theorem of_polled (h : Polled p q) : SameFlow p q :=
  ⟨by rw [h.intake], h.messages, h.totalProcessed,
    h.history.mono fun _ => Event.isFlow_of_isTracking⟩

theorem polled (h : SameFlow p q) (hp : Polled q r) : SameFlow p r := h.trans (of_polled hp)

theorem record {e : Event} (h : SameFlow p q) (he : e.isFlow = false) :
    SameFlow p (q.record e) :=
  h.trans ⟨rfl, rfl, rfl, .one he⟩

theorem fail {f : Failure} (h : SameFlow p q) : SameFlow p (q.fail f) := h.polled (.fail q f)

theorem reply {n : Nat} {r : Reply} (h : SameFlow p q) : SameFlow p (q.reply n r) :=
  h.trans (single rfl rfl rfl rfl rfl)

theorem setCall {n : Nat} {s : CallStage} (h : SameFlow p q) : SameFlow p (q.setCall n s) :=
  h.trans (silent rfl rfl rfl rfl)

theorem queueFetchStop {n r : Nat} (h : SameFlow p q) : SameFlow p (q.queueFetchStop n r) :=
  h.trans (single rfl rfl rfl rfl rfl)

theorem launch {t : Task} {role : Role} (h : SameFlow p q) : SameFlow p (q.launch t role) := by
  refine h.trans ?_
  cases role <;> exact single rfl rfl rfl rfl rfl

theorem afterOfferPoll {n : Nat} {item : WorkItem} {wait : Wait} {r : Pipeline × Verdict}
    (h : SameFlow p r.1) : SameFlow p (afterOfferPoll n item wait r) := by
  obtain ⟨q, v⟩ := r
  cases v with
  | failed e => exact h.reply
  | active b => exact h.trans (silent rfl rfl rfl rfl)
  | injecting i => exact h.setCall

theorem afterCheckPoll {n : Nat} {r : Pipeline × Verdict} (h : SameFlow p r.1) :
    SameFlow p (afterCheckPoll n r) := by
  obtain ⟨q, v⟩ := r
  cases v with
  | failed e => exact h.reply
  | active b => exact h.reply
  | injecting i => exact h.setCall

theorem endWorker {t : Task} {e : Ending} (h : SameFlow p q) : SameFlow p (q.endWorker t e) :=
  h.trans (single rfl rfl rfl rfl rfl)

theorem endFetcher {i : Nat} {w : Fetcher} {e : Ending} (h : SameFlow p q) :
    SameFlow p (q.endFetcher i w e) := by
  unfold Pipeline.endFetcher
  refine endWorker (h.trans ?_)
  split
  · exact single rfl rfl rfl rfl rfl
  · exact silent rfl rfl rfl rfl

theorem endEmitter {j : Nat} {e : Ending} (h : SameFlow p q) : SameFlow p (q.endEmitter j e) :=
  endWorker (q := q.setEmitter j .exited) (h.trans (silent rfl rfl rfl rfl))

theorem afterFetcherPoll {i : Nat} {w : Fetcher} {r : Pipeline × Verdict} (h : SameFlow p r.1) :
    SameFlow p (afterFetcherPoll i w r) := by
  obtain ⟨q, v⟩ := r
  cases v with
  | failed e => exact h.endFetcher
  | active b => exact h.trans (silent rfl rfl rfl rfl)
  | injecting i => exact h.trans (silent rfl rfl rfl rfl)

theorem tryPoll {i : Nat} {w : Fetcher} (h : SameFlow p q) : SameFlow p (q.tryPoll i w) := by
  unfold Pipeline.tryPoll
  split
  · have hr : SameFlow p (q.requestTracker (.fetcher i)) := h.trans (silent rfl rfl rfl rfl)
    exact afterFetcherPoll (hr.polled (.poll _ _))
  · exact h.trans (silent rfl rfl rfl rfl)

end SameFlow

/-- The queues, the counter and the history agree. -/
structure Balanced (p : Pipeline) : Prop where
  intake : p.history.log Event.enqueued =
    (p.history.log Event.receipt).map Prod.snd ++ p.intake.messages
  called : p.history.log Event.processCall =
    (p.history.log Event.receipt).filterMap fun x => x.2.content?.map (x.1, ·)
  placed : p.history.log Event.placement =
    (p.history.log Event.report).filterMap fun x => x.2.2.clean?.map (x.1, ·)
  outtake : p.history.log Event.outQueued =
    (p.history.log Event.taking).map Prod.snd ++ p.outtake.messages
  emitted : p.history.log Event.emitCall =
    (p.history.log Event.taking).filterMap fun x => x.2.content?.map (x.1, ·)
  counted : p.totalProcessed = (p.history.log Event.report).length

namespace Balanced

variable {p q : Pipeline}

theorem of_sameFlow (hb : Balanced p) (h : SameFlow p q) : Balanced q := by
  have hreceipt := h.log Event.Flowless.receipt
  have hreport := h.log Event.Flowless.report
  have htaking := h.log Event.Flowless.taking
  obtain ⟨hi, hc, hp, ho, he, hn⟩ := hb
  constructor
  · rw [h.log Event.Flowless.enqueued, hreceipt, h.intake]; exact hi
  · rw [h.log Event.Flowless.processCall, hreceipt]; exact hc
  · rw [h.log Event.Flowless.placement, hreport]; exact hp
  · rw [h.log Event.Flowless.outQueued, htaking, h.outtake]; exact ho
  · rw [h.log Event.Flowless.emitCall, htaking]; exact he
  · rw [h.counted, hreport]; exact hn

theorem inject {t : Task} {i : Injection} {r : Pipeline × Verdict} (hb : Balanced p)
    (h : Injected p t i r) : Balanced r.1 := by
  have hpush : Balanced
      ({ p with outtake := p.outtake.push t .stop }.record (.stopQueued .emit)) := by
    obtain ⟨hi, hc, hp, ho, he, hn⟩ := hb
    constructor <;> simp_all [record]
  cases h with
  | last hs hr => exact hpush.of_sameFlow (.of_polled (.endInjection _))
  | next hs hr => exact hpush.of_sameFlow (.of_polled (.queueEmitStop _ _ _))
  | @stalled q f hs hd hq hf =>
    subst hq
    exact hb.of_sameFlow (.fail (.single rfl rfl rfl rfl rfl))

theorem invocation {n : Nat} {request : Request} (hb : Balanced p)
    (h : Invocation p n request q) : Balanced q := by
  refine hb.of_sameFlow ?_
  cases h with
  | start | check | status | offer | batch | finish => exact .silent rfl rfl rfl rfl
  | batchRefused | batchTooLarge | batchEmpty | finishEarly | finishLate => exact .reply (.refl p)
  | finishAgain => exact .reply (.silent rfl rfl rfl rfl)

theorem call {n : Nat} {stage : CallStage} (hb : Balanced p) (h : CallMove p n stage q) :
    Balanced q := by
  cases h with
  | startedBefore | offerRefused | unsent | batchRefused | noStops | read =>
    exact hb.of_sameFlow (.reply (.refl p))
  | launching => exact hb.of_sameFlow (.setCall (.refl p))
  | launchFetcher | launchEmitter => exact hb.of_sameFlow (.setCall (.launch (.refl p)))
  | opened => exact hb.of_sameFlow (.reply (.silent rfl rfl rfl rfl))
  | offerAccepted => exact hb.of_sameFlow (.silent rfl rfl rfl rfl)
  | offerPolled => exact hb.of_sameFlow (.afterOfferPoll (.of_polled (.poll _ _)))
  | offerInjected hi =>
    exact (hb.inject (inject?_injected hi)).of_sameFlow (.afterOfferPoll (.refl _))
  | sent | batchAdmitted | lastStop =>
    refine of_sameFlow ?_ (.reply (.refl _))
    obtain ⟨hi, hc, hp, ho, he, hn⟩ := hb
    constructor <;> simp_all [record]
  | batchExpired => exact hb.of_sameFlow (.reply (.record (.refl p) rfl))
  | batchPaused => exact hb.of_sameFlow (.setCall (.record (.refl p) rfl))
  | firstStop => exact hb.of_sameFlow (.queueFetchStop (.refl p))
  | nextStop =>
    refine of_sameFlow ?_ (.queueFetchStop (.refl _))
    obtain ⟨hi, hc, hp, ho, he, hn⟩ := hb
    constructor <;> simp_all [record]
  | stopStalled => exact hb.of_sameFlow (.single rfl rfl rfl rfl rfl)
  | stalledOut => exact hb.of_sameFlow (.reply (.fail (.refl p)))
  | checked => exact hb.of_sameFlow (.afterCheckPoll (.of_polled (.poll _ _)))
  | checkInjected hi =>
    exact (hb.inject (inject?_injected hi)).of_sameFlow (.afterCheckPoll (.refl _))

theorem fetcher {i : Nat} {w : Fetcher} (hb : Balanced p) (h : FetcherMove p i w q) :
    Balanced q := by
  cases h with
  | abort | notCreated => exact hb.of_sameFlow (.endFetcher (.refl p))
  | create | acquire => exact hb.of_sameFlow (.silent rfl rfl rfl rfl)
  | created => exact hb.of_sameFlow (.single rfl rfl rfl rfl rfl)
  | receiveStop =>
    refine of_sameFlow ?_ (.endFetcher (.refl _))
    obtain ⟨hi, hc, hp, ho, he, hn⟩ := hb
    constructor <;> simp_all [record, Message.content?]
  | receiveItem =>
    obtain ⟨hi, hc, hp, ho, he, hn⟩ := hb
    constructor <;> simp_all [record, acceptMessage, setFetcher, Message.content?]
  | idle => exact hb.of_sameFlow (.tryPoll (.silent rfl rfl rfl rfl))
  | handOver =>
    obtain ⟨hi, hc, hp, ho, he, hn⟩ := hb
    constructor <;> simp_all [record, setFetcher, Queue.join]
  | settle =>
    refine of_sameFlow ?_ (.tryPoll (.refl _))
    obtain ⟨hi, hc, hp, ho, he, hn⟩ := hb
    constructor <;> simp_all [record]
  | lose =>
    refine of_sameFlow ?_ (.endFetcher (.refl _))
    obtain ⟨hi, hc, hp, ho, he, hn⟩ := hb
    constructor <;> simp_all [record]
  | handed =>
    refine of_sameFlow ?_ (.tryPoll (.refl _))
    obtain ⟨hi, hc, hp, ho, he, hn⟩ := hb
    constructor <;> simp_all [record, Outcome.clean?]
  | stalled => exact hb.of_sameFlow (.endFetcher (.single rfl rfl rfl rfl rfl))
  | injected _ hi =>
    exact (hb.inject (inject?_injected hi)).of_sameFlow (.afterFetcherPoll (.refl _))

theorem emitter {j : Nat} {w : EmitWorker} (hb : Balanced p) (h : EmitterMove p j w q) :
    Balanced q := by
  cases h with
  | abort => exact hb.of_sameFlow (.endEmitter (.refl p))
  | queue | acquire => exact hb.of_sameFlow (.silent rfl rfl rfl rfl)
  | takeStop =>
    refine of_sameFlow ?_ (.endEmitter (.refl _))
    obtain ⟨hi, hc, hp, ho, he, hn⟩ := hb
    constructor <;> simp_all [record, Message.content?]
  | takePayload =>
    obtain ⟨hi, hc, hp, ho, he, hn⟩ := hb
    constructor <;> simp_all [record, setEmitter, Message.content?]
  | delivered => exact hb.of_sameFlow (.single rfl rfl rfl rfl rfl)
  | failed => exact hb.of_sameFlow (.endEmitter (.record (.refl p) rfl))

theorem move (hb : Balanced p) (h : Move p q) : Balanced q := by
  cases h with
  | invoke hn h => exact invocation (hb.of_sameFlow (.record (.refl p) rfl)) h
  | cancel => exact hb.of_sameFlow (.single rfl rfl rfl rfl rfl)
  | close =>
    have ha : SameFlow p (if p.closed then p else p.abortAll) := by
      split
      · exact .refl p
      · exact .of_polled (.abortAll p)
    exact hb.of_sameFlow (ha.record rfl)
  | drop =>
    exact hb.of_sameFlow (.record (.of_polled (.abortAll p)) rfl)
  | tick => exact hb.of_sameFlow (.silent rfl rfl rfl rfl)
  | call hm h => exact hb.call h
  | fetcher hw h => exact hb.fetcher h
  | emitter hw h => exact hb.emitter h

end Balanced

/-- A pipeline that has just been built balances. -/
theorem balanced_of_build {settings : Settings} {origin : Instant} {p : Pipeline}
    (h : build settings origin = .built p) : Balanced p := by
  obtain ⟨-, -, rfl⟩ := build_eq_built h
  constructor <;> rfl

theorem Reaches.balanced {settings : Settings} {origin : Instant} {p q : Pipeline}
    (h : p.Reaches q) (hb : build settings origin = .built p) : Balanced q :=
  h.invariant (balanced_of_build hb) fun _ _ _ ih hm => ih.move hm

end Pipeline

end DocumentPipeline
