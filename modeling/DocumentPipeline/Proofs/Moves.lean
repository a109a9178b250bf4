import DocumentPipeline.Proofs.Histories
import Mathlib.Data.List.Induction

/-! # What a step can do

The moves of a caller, of a fetch worker and of an emit worker, each with what must
hold before it and with the pipeline it leads to. Every step is one of them, so later
proofs go through the moves and never open the step functions.
-/
namespace DocumentPipeline

namespace Pipeline

/-- What a completion poll comes to. -/
inductive PollResult (p : Pipeline) (t : Task) : Pipeline × Verdict → Prop
  | notStarted (hs : p.started = false) : PollResult p t (p, .failed .notInitialized)
  | latched {f} (hs : p.started = true) (hf : p.tracker.failure = some f) :
      PollResult p t (p, .failed f.error)
  | failed {q f} (hs : p.started = true) (hf : p.tracker.failure = none)
      (hc : p.collect = (q, some f)) : PollResult p t (q, .failed f.error)
  | injecting {q} (hs : p.started = true) (hf : p.tracker.failure = none)
      (hc : p.collect = (q, none))
      (hn : q.tracker.fetchFinished = q.settings.numClients.toNat)
      (he : q.tracker.emitStopSent = false) (hp : 0 < q.settings.numEmitters.toNat) :
      PollResult p t (q.queueEmitStop t q.settings.numEmitters.toNat)
  | noEmitters {q} (hs : p.started = true) (hf : p.tracker.failure = none)
      (hc : p.collect = (q, none)) (hp : q.settings.numEmitters.toNat = 0)
      (he : q.tracker.emitStopSent = false) : PollResult p t q.endInjection
  | active {q} (hs : p.started = true) (hf : p.tracker.failure = none)
      (hc : p.collect = (q, none))
      (hn : q.tracker.fetchFinished ≠ q.settings.numClients.toNat ∨
        q.tracker.emitStopSent = true) :
      PollResult p t (q, .active (q.tracker.finished ≠ q.settings.totalWorkers))

/-- How an injection goes on: the signal gets its slot, or gives up at its ceiling. -/
inductive Injected (p : Pipeline) (t : Task) (i : Injection) : Pipeline × Verdict → Prop
  | last (hs : p.outtake.hasSlot t = true) (hr : i.remaining ≤ 1) :
      Injected p t i
        ({ p with outtake := p.outtake.push t .stop }.record (.stopQueued .emit)).endInjection
  | next (hs : p.outtake.hasSlot t = true) (hr : 1 < i.remaining) :
      Injected p t i
        (({ p with outtake := p.outtake.push t .stop }.record (.stopQueued .emit)).queueEmitStop t
          (i.remaining - 1))
  | stalled {q f} (hs : p.outtake.hasSlot t = false) (hd : i.deadline ≤ p.now)
      (hq : q = { p with outtake := p.outtake.leave t }.record (.handoffStalled t .emitStop))
      (hf : f = .stalled Cargo.emitStop.label p.ceiling) :
      Injected p t i
        ({ q with tracker := { q.tracker with emitStopSent := true } }.fail f, .failed f.error)

/-- A new call has been recorded and is answered at once or begins to wait. -/
inductive Invocation (p : Pipeline) (n : Nat) : Request → Pipeline → Prop
  | start : Invocation p n .start ((p.addCall n .starting).requestTracker (.call n))
  | check : Invocation p n .checkActive ((p.addCall n .checking).requestTracker (.call n))
  | status : Invocation p n .status ((p.addCall n .reading).requestTracker (.call n))
  | offer {item wait} :
      Invocation p n (.offer item wait)
        ((p.addCall n (.offering item wait)).requestProducer (.call n))
  | batchRefused {items wait e} (hr : p.refusal? = some e) :
      Invocation p n (.offerBatch items wait) (p.reply n (.offered (.error e)))
  | batchTooLarge {items wait} (hr : p.refusal? = none)
      (hl : p.settings.queueSize.toNat < items.length) :
      Invocation p n (.offerBatch items wait)
        (p.reply n (.offered (.error (.batchTooLarge items.length p.settings.queueSize.toNat))))
  | batchEmpty {wait} (hr : p.refusal? = none) :
      Invocation p n (.offerBatch [] wait) (p.reply n (.offered (.ok true)))
  | batch {items wait} (hr : p.refusal? = none) (hn : items ≠ [])
      (hl : items.length ≤ p.settings.queueSize.toNat) :
      Invocation p n (.offerBatch items wait)
        ((p.addCall n (.batching items wait)).requestProducer (.call n))
  | finishEarly (hs : p.started = false) :
      Invocation p n .finish (p.reply n (.finished (.error .notInitialized)))
  | finishLate (hs : p.started = true) (hc : p.closed = true) :
      Invocation p n .finish (p.reply n (.finished (.error .shuttingDown)))
  | finishAgain (hs : p.started = true) (hc : p.closed = false) (hf : p.stopsClaimed = true) :
      Invocation p n .finish ({ p with shuttingDown := true }.reply n (.finished (.ok ())))
  | finish (hs : p.started = true) (hc : p.closed = false) (hf : p.stopsClaimed = false) :
      Invocation p n .finish
        (({ p with shuttingDown := true, stopsClaimed := true }.addCall n
          .finishing).requestProducer (.call n))

/-- A batch is about to look for room: it has just been let in, or its pause is over. -/
inductive Looking (p : Pipeline) (n : Nat) (items : List WorkItem) (deadline : Option Nat) :
    CallStage → Prop
  | first {wait} (held : p.producerLock.heldBy (.call n) = true) (hr : p.refusal? = none)
      (hd : deadline = wait.deadline? p.now) : Looking p n items deadline (.batching items wait)
  | again {wake} (hw : wake ≤ p.now) : Looking p n items deadline (.pausing items wake deadline)

/-- A pending call takes its next step. -/
inductive CallMove (p : Pipeline) (n : Nat) : CallStage → Pipeline → Prop
  | startedBefore (held : p.trackerLock.heldBy (.call n) = true) (hs : p.started = true) :
      CallMove p n .starting (p.reply n .started)
  | launching (held : p.trackerLock.heldBy (.call n) = true) (hs : p.started = false) :
      CallMove p n .starting (p.setCall n (.launching 0))
  | launchFetcher {c} (hc : c < p.settings.numClients.toNat) :
      CallMove p n (.launching c) ((p.launch (.fetcher c) .fetch).setCall n (.launching (c + 1)))
  | launchEmitter {c} (hc : p.settings.numClients.toNat ≤ c) (ht : c < p.settings.totalWorkers) :
      CallMove p n (.launching c)
        ((p.launch (.emitter (c - p.settings.numClients.toNat)) .emit).setCall n
          (.launching (c + 1)))
  | opened {c} (ht : p.settings.totalWorkers ≤ c) :
      CallMove p n (.launching c)
        ({ p with
            abortable := p.allWorkers
            tracker := { p.tracker with startedAt := some p.now }
            started := true }.reply n .started)
  | offerRefused {item wait e} (held : p.producerLock.heldBy (.call n) = true)
      (hr : p.refusal? = some e) :
      CallMove p n (.offering item wait) (p.reply n (.offered (.error e)))
  | offerAccepted {item wait} (held : p.producerLock.heldBy (.call n) = true)
      (hr : p.refusal? = none) :
      CallMove p n (.offering item wait)
        ((p.setCall n (.offerPolling item wait)).requestTracker (.call n))
  | offerPolled {item wait} (held : p.trackerLock.heldBy (.call n) = true) :
      CallMove p n (.offerPolling item wait) (afterOfferPoll n item wait (p.poll (.call n)))
  | offerInjected {item wait i r} (hi : p.inject? (.call n) i = some r) :
      CallMove p n (.offerInjecting item wait i) (afterOfferPoll n item wait r)
  | sent {item deadline} (hs : p.intake.hasSlot (.call n) = true) :
      CallMove p n (.sending item deadline)
        (({ p with intake := p.intake.push (.call n) (.data item) }.record
          (.admitted n [item])).reply n (.offered (.ok true)))
  | unsent {item deadline} (hs : p.intake.hasSlot (.call n) = false) (hd : deadline ≤ p.now) :
      CallMove p n (.sending item deadline) (p.reply n (.offered (.ok false)))
  | batchRefused {items wait e} (held : p.producerLock.heldBy (.call n) = true)
      (hr : p.refusal? = some e) :
      CallMove p n (.batching items wait) (p.reply n (.offered (.error e)))
  | batchAdmitted {stage items deadline} (hl : Looking p n items deadline stage)
      (hf : items.length ≤ p.intake.free) :
      CallMove p n stage
        (({ p.record (.tested n p.intake.free) with
            intake :=
              { p.intake with messages := p.intake.messages ++ items.map Message.data } }.record
          (.admitted n items)).reply n (.offered (.ok true)))
  | batchExpired {stage items d} (hl : Looking p n items (some d) stage)
      (hf : p.intake.free < items.length) (hd : d ≤ p.now) :
      CallMove p n stage
        ((p.record (.tested n p.intake.free)).reply n (.offered (.ok false)))
  | batchPaused {stage items deadline wake} (hl : Looking p n items deadline stage)
      (hf : p.intake.free < items.length) :
      CallMove p n stage
        ((p.record (.tested n p.intake.free)).setCall n (.pausing items wake deadline))
  | noStops (held : p.producerLock.heldBy (.call n) = true)
      (hc : p.settings.numClients.toNat = 0) :
      CallMove p n .finishing (p.reply n (.finished (.ok ())))
  | firstStop (held : p.producerLock.heldBy (.call n) = true)
      (hc : 0 < p.settings.numClients.toNat) :
      CallMove p n .finishing (p.queueFetchStop n p.settings.numClients.toNat)
  | lastStop {r deadline} (hs : p.intake.hasSlot (.call n) = true) (hr : r ≤ 1) :
      CallMove p n (.stopping r deadline)
        (({ p with intake := p.intake.push (.call n) .stop }.record (.stopQueued .fetch)).reply n
          (.finished (.ok ())))
  | nextStop {r deadline} (hs : p.intake.hasSlot (.call n) = true) (hr : 1 < r) :
      CallMove p n (.stopping r deadline)
        (({ p with intake := p.intake.push (.call n) .stop }.record
          (.stopQueued .fetch)).queueFetchStop n (r - 1))
  | stopStalled {r deadline} (hs : p.intake.hasSlot (.call n) = false) (hd : deadline ≤ p.now) :
      CallMove p n (.stopping r deadline)
        ((({ p with intake := p.intake.leave (.call n) }.record
          (.handoffStalled (.call n) .fetchStop)).setCall n .stallingOut).requestTracker (.call n))
  | stalledOut (held : p.trackerLock.heldBy (.call n) = true) :
      CallMove p n .stallingOut
        ((p.fail (.stalled Cargo.fetchStop.label p.ceiling)).reply n
          (.finished (.error (.stalled Cargo.fetchStop.label p.ceiling))))
  | checked (held : p.trackerLock.heldBy (.call n) = true) :
      CallMove p n .checking (afterCheckPoll n (p.poll (.call n)))
  | checkInjected {i r} (hi : p.inject? (.call n) i = some r) :
      CallMove p n (.checkInjecting i) (afterCheckPoll n r)
  | read (held : p.trackerLock.heldBy (.call n) = true) :
      CallMove p n .reading (p.reply n (.status p.statusView))

/-- A fetch worker or its client takes the next step. -/
inductive FetcherMove (p : Pipeline) (i : Nat) (w : Fetcher) : Pipeline → Prop
  | abort (hs : w.stage ≠ .exited) (ha : w.abortRequested = true) :
      FetcherMove p i w (p.endFetcher i w .aborted)
  | create (hs : w.stage = .launched) : FetcherMove p i w (p.setFetcher i .creating)
  | created (hs : w.stage = .creating) :
      FetcherMove p i w ((p.record (.clientCreated i)).queueFetcher i)
  | notCreated {ending} (hs : w.stage = .creating)
      (he : (∃ e, ending = .failed (.client e)) ∨ ∃ m, ending = .panicked m) :
      FetcherMove p i w (p.endFetcher i w ending)
  | acquire (hs : w.stage = .queuing) (held : p.intakeLock.heldBy (.fetcher i) = true) :
      FetcherMove p i w (p.setFetcher i (.receiving (p.now + fetchPollTimeout)))
  | receiveStop {d ms} (hs : w.stage = .receiving d) (hm : p.intake.messages = .stop :: ms) :
      FetcherMove p i w
        ({ p with intake := { p.intake with messages := ms } }.acceptMessage i w .stop)
  | receiveItem {d item ms} (hs : w.stage = .receiving d)
      (hm : p.intake.messages = .data item :: ms) :
      FetcherMove p i w
        ({ p with intake := { p.intake with messages := ms } }.acceptMessage i w (.data item))
  | idle {d} (hs : w.stage = .receiving d) (hm : p.intake.messages = []) (hd : d ≤ p.now) :
      FetcherMove p i w
        ({ p with intakeLock := p.intakeLock.release (.fetcher i) }.tryPoll i w)
  | handOver {item since r payload} (hs : w.stage = .processing item since)
      (hr : r.outcome? = some (.parsed payload)) :
      FetcherMove p i w
        (({ p.record (.processEnded i item r) with
            outtake := p.outtake.join (.fetcher i) }.record
          (.handoffBegan (.fetcher i) .emitData)).setFetcher i
            (.handing item payload since (p.now + p.ceiling)))
  | settle {item since r outcome} (hs : w.stage = .processing item since)
      (hr : r.outcome? = some outcome) (he : outcome.clean? = none) :
      FetcherMove p i w ((p.record (.processEnded i item r)).finishItem i w item outcome since)
  | lose {item since r ending} (hs : w.stage = .processing item since) (hr : r.outcome? = none)
      (he : (∃ e, ending = .failed (.client e)) ∨ ∃ m, ending = .panicked m) :
      FetcherMove p i w ((p.record (.processEnded i item r)).endFetcher i w ending)
  | handed {item payload since d} (hs : w.stage = .handing item payload since d)
      (hq : p.outtake.hasSlot (.fetcher i) = true) :
      FetcherMove p i w
        (({ p with outtake := p.outtake.push (.fetcher i) (.data payload) }.record
          (.payloadQueued i payload)).finishItem i w item (.parsed payload) since)
  | stalled {item payload since d} (hs : w.stage = .handing item payload since d)
      (hq : p.outtake.hasSlot (.fetcher i) = false) (hd : d ≤ p.now) :
      FetcherMove p i w
        (({ p with outtake := p.outtake.leave (.fetcher i) }.record
          (.handoffStalled (.fetcher i) .emitData)).endFetcher i w
            (.failed (.stalled Cargo.emitData.label p.ceiling)))
  | injected {inj r} (hs : w.stage = .injecting inj) (hi : p.inject? (.fetcher i) inj = some r) :
      FetcherMove p i w (afterFetcherPoll i w r)

/-- An emit worker or the emitter takes the next step. -/
inductive EmitterMove (p : Pipeline) (j : Nat) (w : EmitWorker) : Pipeline → Prop
  | abort (hs : w.stage ≠ .exited) (ha : w.abortRequested = true) :
      EmitterMove p j w (p.endEmitter j .aborted)
  | queue (hs : w.stage = .launched) : EmitterMove p j w (p.queueEmitter j)
  | acquire (hs : w.stage = .queuing) (held : p.outtakeLock.heldBy (.emitter j) = true) :
      EmitterMove p j w (p.setEmitter j .receiving)
  | takeStop {ms} (hs : w.stage = .receiving) (hm : p.outtake.messages = .stop :: ms) :
      EmitterMove p j w
        (({ p with
            outtake := { p.outtake with messages := ms }
            outtakeLock := p.outtakeLock.release (.emitter j) }.record
          (.taken j .stop)).endEmitter j .finished)
  | takePayload {payload ms} (hs : w.stage = .receiving)
      (hm : p.outtake.messages = .data payload :: ms) :
      EmitterMove p j w
        ((({ p with
            outtake := { p.outtake with messages := ms }
            outtakeLock := p.outtakeLock.release (.emitter j) }.record
          (.taken j (.data payload))).setEmitter j (.emitting payload)).record
            (.emitBegan j payload))
  | delivered {payload r} (hs : w.stage = .emitting payload) :
      EmitterMove p j w ((p.record (.emitEnded j payload r)).queueEmitter j)
  | failed {payload r ending} (hs : w.stage = .emitting payload)
      (he : (∃ e, ending = .failed (.emit e)) ∨ ∃ m, ending = .panicked m) :
      EmitterMove p j w ((p.record (.emitEnded j payload r)).endEmitter j ending)

/-- An action is taken, with what must hold for it. -/
inductive Taken (p : Pipeline) : Action → Pipeline → Prop
  | invoke {n request} (hn : ∀ s, (n, s) ∉ p.calls) :
      Taken p (.invoke n request) (p.invoke n request)
  | cancel {n stage} (hm : (n, stage) ∈ p.calls) (hs : stage.isSuspended = true) :
      Taken p (.cancel n)
        ({ p.release (.call n) with calls := p.calls.filter (·.1 ≠ n) }.record (.cancelled n))
  | close : Taken p .close p.close
  | drop (hc : p.calls = []) : Taken p .drop p.drop
  | tick {ms} : Taken p (.tick ms) { p with now := p.now + ms }
  | call {n stage q} (hm : (n, stage) ∈ p.calls) (h : p.stepCall? n stage = some q) :
      Taken p (.proceed (.call n)) q
  | fetcher {i w q} (hw : p.fetchers[i]? = some w) (h : p.stepFetcher? i w = some q) :
      Taken p (.proceed (.fetcher i)) q
  | emitter {j w q} (hw : p.emitters[j]? = some w) (h : p.stepEmitter? j w = some q) :
      Taken p (.proceed (.emitter j)) q
  | abortFetcher {i w q} (hw : p.fetchers[i]? = some w) (h : p.abortFetcher? i w = some q) :
      Taken p (.abort (.fetcher i)) q
  | abortEmitter {j w q} (hw : p.emitters[j]? = some w) (h : p.abortEmitter? j w = some q) :
      Taken p (.abort (.emitter j)) q
  | clientReturns {i w r q} (hw : p.fetchers[i]? = some w)
      (h : p.clientReturned? i w r = some q) : Taken p (.clientReturns i r) q
  | processReturns {i w r q} (hw : p.fetchers[i]? = some w)
      (h : p.processReturned? i w r = some q) : Taken p (.processReturns i r) q
  | emitReturns {j w r q} (hw : p.emitters[j]? = some w)
      (h : p.emitReturned? j w r = some q) : Taken p (.emitReturns j r) q

/-- What one step does. -/
inductive Move (p : Pipeline) : Pipeline → Prop
  | invoke {n request q} (hn : ∀ s, (n, s) ∉ p.calls)
      (h : Invocation (p.record (.invoked n request)) n request q) : Move p q
  | cancel {n stage} (hm : (n, stage) ∈ p.calls) (hs : stage.isSuspended = true) :
      Move p ({ p.release (.call n) with calls := p.calls.filter (·.1 ≠ n) }.record (.cancelled n))
  | close : Move p p.close
  | drop (hc : p.calls = []) : Move p p.drop
  | tick {ms} : Move p { p with now := p.now + ms }
  | call {n stage q} (hm : (n, stage) ∈ p.calls) (h : CallMove p n stage q) : Move p q
  | fetcher {i w q} (hw : p.fetchers[i]? = some w) (h : FetcherMove p i w q) : Move p q
  | emitter {j w q} (hw : p.emitters[j]? = some w) (h : EmitterMove p j w q) : Move p q

theorem poll_result (p : Pipeline) (t : Task) : PollResult p t (p.poll t) := by
  unfold poll
  split
  · next hs => exact .notStarted (by simpa using hs)
  · next hs =>
    have hs : p.started = true := by simpa using hs
    split
    · next f hf => exact .latched hs hf
    · next hf =>
      split
      · next q f hc => exact .failed hs hf hc
      · next q hc =>
        split
        · next hn =>
          split
          · next hp => exact .noEmitters hs hf hc hp (by simpa using hn.2)
          · next hp => exact .injecting hs hf hc hn.1 (by simpa using hn.2) (Nat.pos_of_ne_zero hp)
        · next hn => exact .active hs hf hc (by grind)

theorem inject?_injected {p : Pipeline} {t : Task} {i : Injection} {r : Pipeline × Verdict}
    (h : p.inject? t i = some r) : Injected p t i r := by
  unfold inject? at h
  split at h
  · next hs =>
    dsimp only at h
    split at h
    · next hr => cases h; exact .last hs hr
    · next hr => cases h; exact .next hs (Nat.lt_of_not_le hr)
  · next hs =>
    split at h
    · next hd => cases h; exact .stalled (by simpa using hs) hd rfl rfl
    · cases h

theorem invoke_move (p : Pipeline) (n : Nat) (request : Request) :
    Invocation (p.record (.invoked n request)) n request (p.invoke n request) := by
  cases request with
  | start => exact .start
  | checkActive => exact .check
  | status => exact .status
  | offer item wait => exact .offer
  | offerBatch items wait =>
    simp only [invoke, invokeBatch]
    split
    · next e hr => exact .batchRefused hr
    · next hr =>
      split
      · next hl => exact .batchTooLarge hr hl
      · next hl =>
        split
        · next hn =>
          obtain rfl := List.isEmpty_iff.mp hn
          exact .batchEmpty hr
        · next hn => exact .batch hr (by simpa using hn) (Nat.le_of_not_lt hl)
  | finish =>
    simp only [invoke, invokeFinish]
    split
    · next hs => exact .finishEarly (by simpa using hs)
    · next hs =>
      split
      · next hc => exact .finishLate (by simpa using hs) hc
      · next hc =>
        split
        · next hf => exact .finishAgain (by simpa using hs) (by simpa using hc) hf
        · next hf => exact .finish (by simpa using hs) (by simpa using hc) (by simpa using hf)

/-- A batch that looks for room is admitted, gives up or pauses. -/
theorem testBatch_move {p : Pipeline} {n : Nat} {items : List WorkItem} {deadline : Option Nat}
    {stage : CallStage} (hl : Looking p n items deadline stage) :
    CallMove p n stage (p.testBatch n items deadline) := by
  have hfree : (p.record (.tested n p.intake.free)).intake.free = p.intake.free := rfl
  have hpause (hf : p.intake.free < items.length) :
      CallMove p n stage
        ((p.record (.tested n p.intake.free)).pauseBatch n items deadline) := by
    unfold pauseBatch
    split
    · exact .batchPaused hl hf
    · split
      · next hd => exact .batchExpired hl hf hd
      · exact .batchPaused hl hf
  unfold testBatch
  simp only [hfree]
  split
  · next hf =>
    have hp : (p.record (.tested n p.intake.free)).intake.pushAll? (items.map .data) =
        some { p.intake with messages := p.intake.messages ++ items.map Message.data } := by
      rw [Queue.pushAll?_eq_some_iff]
      exact ⟨by simpa [hfree] using hf, rfl⟩
    rw [hp]
    exact .batchAdmitted hl hf
  · next hf => exact hpause (Nat.lt_of_not_le hf)

theorem stepCall?_move {p q : Pipeline} {n : Nat} {stage : CallStage}
    (h : p.stepCall? n stage = some q) : CallMove p n stage q := by
  cases stage with
  | starting =>
    simp only [stepCall?, Option.ite_none_right_eq_some, Option.some.injEq] at h
    obtain ⟨held, rfl⟩ := h
    split
    · next hs => exact .startedBefore held hs
    · next hs => exact .launching held (by simpa using hs)
  | launching c =>
    simp only [stepCall?, launchNext, Option.some.injEq] at h
    subst h
    split
    · next hc => exact .launchFetcher hc
    · next hc =>
      split
      · next ht => exact .launchEmitter (Nat.le_of_not_lt hc) ht
      · next ht => exact .opened (Nat.le_of_not_lt ht)
  | offering item wait =>
    simp only [stepCall?, Option.ite_none_right_eq_some, Option.some.injEq] at h
    obtain ⟨held, rfl⟩ := h
    split
    · next hr => exact .offerRefused held hr
    · next hr => exact .offerAccepted held hr
  | offerPolling item wait =>
    simp only [stepCall?, Option.ite_none_right_eq_some, Option.some.injEq] at h
    obtain ⟨held, rfl⟩ := h
    exact .offerPolled held
  | offerInjecting item wait i =>
    simp only [stepCall?, Option.map_eq_some_iff] at h
    obtain ⟨r, hi, rfl⟩ := h
    exact .offerInjected hi
  | sending item deadline =>
    simp only [stepCall?] at h
    split at h
    · next hs => cases h; exact .sent hs
    · next hs =>
      split at h
      · next hd => cases h; exact .unsent (by simpa using hs) hd
      · cases h
  | batching items wait =>
    simp only [stepCall?, Option.ite_none_right_eq_some, Option.some.injEq] at h
    obtain ⟨held, rfl⟩ := h
    split
    · next hr => exact .batchRefused held hr
    · next hr => exact testBatch_move (.first held hr rfl)
  | pausing items wake deadline =>
    simp only [stepCall?, Option.ite_none_right_eq_some, Option.some.injEq] at h
    obtain ⟨hw, rfl⟩ := h
    exact testBatch_move (.again hw)
  | finishing =>
    simp only [stepCall?, Option.ite_none_right_eq_some, Option.some.injEq] at h
    obtain ⟨held, rfl⟩ := h
    split
    · next hc => exact .noStops held hc
    · next hc => exact .firstStop held (Nat.pos_of_ne_zero hc)
  | stopping r deadline =>
    simp only [stepCall?] at h
    split at h
    · next hs =>
      split at h
      · next hr => cases h; exact .lastStop hs hr
      · next hr => cases h; exact .nextStop hs (Nat.lt_of_not_le hr)
    · next hs =>
      split at h
      · next hd => cases h; exact .stopStalled (by simpa using hs) hd
      · cases h
  | stallingOut =>
    simp only [stepCall?, Option.ite_none_right_eq_some, Option.some.injEq] at h
    obtain ⟨held, rfl⟩ := h
    exact .stalledOut held
  | checking =>
    simp only [stepCall?, Option.ite_none_right_eq_some, Option.some.injEq] at h
    obtain ⟨held, rfl⟩ := h
    exact .checked held
  | checkInjecting i =>
    simp only [stepCall?, Option.map_eq_some_iff] at h
    obtain ⟨r, hi, rfl⟩ := h
    exact .checkInjected hi
  | reading =>
    simp only [stepCall?, Option.ite_none_right_eq_some, Option.some.injEq] at h
    obtain ⟨held, rfl⟩ := h
    exact .read held

theorem abortFetcher?_move {p q : Pipeline} {i : Nat} {w : Fetcher}
    (h : p.abortFetcher? i w = some q) : FetcherMove p i w q := by
  simp only [abortFetcher?, Option.ite_none_right_eq_some, Option.some.injEq] at h
  obtain ⟨⟨ha, hs⟩, rfl⟩ := h
  exact .abort hs ha

theorem stepFetcher?_move {p q : Pipeline} {i : Nat} {w : Fetcher}
    (h : p.stepFetcher? i w = some q) : FetcherMove p i w q := by
  obtain ⟨stage, abortRequested⟩ := w
  cases stage with
  | launched => cases h; exact .create rfl
  | creating => cases h
  | processing item since => cases h
  | exited => cases h
  | queuing =>
    simp only [stepFetcher?, Option.ite_none_right_eq_some, Option.some.injEq] at h
    obtain ⟨held, rfl⟩ := h
    exact .acquire rfl held
  | receiving d =>
    cases hm : p.intake.messages with
    | nil =>
      simp only [stepFetcher?, Queue.take?, hm, Option.ite_none_right_eq_some,
        Option.some.injEq] at h
      obtain ⟨hd, rfl⟩ := h
      exact .idle rfl hm hd
    | cons m ms =>
      simp only [stepFetcher?, Queue.take?, hm, Option.some.injEq] at h
      subst h
      cases m with
      | stop => exact .receiveStop rfl hm
      | data item => exact .receiveItem rfl hm
  | handing item payload since d =>
    simp only [stepFetcher?] at h
    split at h
    · next hq => cases h; exact .handed rfl hq
    · next hq =>
      split at h
      · next hd => cases h; exact .stalled rfl (by simpa using hq) hd
      · cases h
  | injecting inj =>
    simp only [stepFetcher?, Option.map_eq_some_iff] at h
    obtain ⟨r, hi, rfl⟩ := h
    exact .injected rfl hi

theorem clientReturned?_move {p q : Pipeline} {i : Nat} {w : Fetcher}
    {r : Return ClientError Unit} (h : p.clientReturned? i w r = some q) :
    FetcherMove p i w q := by
  unfold clientReturned? at h
  split at h
  · next hs =>
    split at h
    · cases h; exact .created hs
    · next e => cases h; exact .notCreated hs (.inl ⟨e, rfl⟩)
    · next m => cases h; exact .notCreated hs (.inr ⟨m, rfl⟩)
  · cases h

/-- An item whose outcome is known is handed over or settled at once. -/
theorem acceptOutcome_move {p : Pipeline} {i : Nat} {w : Fetcher} {item : WorkItem}
    {since : Nat} {r : Return ClientError Outcome} {outcome : Outcome}
    (hs : w.stage = .processing item since) (hr : r.outcome? = some outcome) :
    FetcherMove p i w
      ((p.record (.processEnded i item r)).acceptOutcome i w item outcome since) := by
  unfold acceptOutcome
  split
  · next payload hp =>
    obtain rfl := Outcome.emittable?_eq_some_iff.mp hp
    exact .handOver hs hr
  · next hp => exact .settle hs hr (outcome.emittable?_eq_clean? ▸ hp)

theorem processReturned?_move {p q : Pipeline} {i : Nat} {w : Fetcher}
    {r : Return ClientError Outcome} (h : p.processReturned? i w r = some q) :
    FetcherMove p i w q := by
  unfold processReturned? at h
  split at h
  · next hs =>
    dsimp only at h
    split at h
    · cases h; exact acceptOutcome_move hs rfl
    · next e =>
      split at h
      · next he => cases h; exact acceptOutcome_move hs (by simp [Return.outcome?, he])
      · next he => cases h; exact .lose hs (by simp [Return.outcome?, he]) (.inl ⟨e, rfl⟩)
    · next m => cases h; exact .lose hs rfl (.inr ⟨m, rfl⟩)
  · cases h

theorem abortEmitter?_move {p q : Pipeline} {j : Nat} {w : EmitWorker}
    (h : p.abortEmitter? j w = some q) : EmitterMove p j w q := by
  simp only [abortEmitter?, Option.ite_none_right_eq_some, Option.some.injEq] at h
  obtain ⟨⟨ha, hs⟩, rfl⟩ := h
  exact .abort hs ha

theorem stepEmitter?_move {p q : Pipeline} {j : Nat} {w : EmitWorker}
    (h : p.stepEmitter? j w = some q) : EmitterMove p j w q := by
  obtain ⟨stage, abortRequested⟩ := w
  cases stage with
  | launched => cases h; exact .queue rfl
  | emitting payload => cases h
  | exited => cases h
  | queuing =>
    simp only [stepEmitter?, Option.ite_none_right_eq_some, Option.some.injEq] at h
    obtain ⟨held, rfl⟩ := h
    exact .acquire rfl held
  | receiving =>
    cases hm : p.outtake.messages with
    | nil => simp [stepEmitter?, Queue.take?, hm] at h
    | cons m ms =>
      cases m with
      | stop =>
        simp only [stepEmitter?, Queue.take?, hm, Option.some.injEq] at h
        subst h
        exact .takeStop rfl hm
      | data payload =>
        simp only [stepEmitter?, Queue.take?, hm, Option.some.injEq] at h
        subst h
        exact .takePayload rfl hm

theorem emitReturned?_move {p q : Pipeline} {j : Nat} {w : EmitWorker}
    {r : Return EmitError Unit} (h : p.emitReturned? j w r = some q) : EmitterMove p j w q := by
  unfold emitReturned? at h
  split at h
  · next hs =>
    dsimp only at h
    split at h
    · cases h; exact .delivered hs
    · next e =>
      split at h
      · cases h; exact .failed hs (.inl ⟨e, rfl⟩)
      · cases h; exact .delivered hs
    · next m => cases h; exact .failed hs (.inr ⟨m, rfl⟩)
  · cases h

theorem mem_calls_of_callStage? {p : Pipeline} {n : Nat} {s : CallStage}
    (h : p.callStage? n = some s) : (n, s) ∈ p.calls := by
  unfold callStage? at h
  obtain ⟨l₁, l₂, hl, -⟩ := List.lookup_eq_some_iff.mp h
  simp [hl]

theorem step_taken {p q : Pipeline} {a : Action} (h : p.step a = some q) : Taken p a q := by
  cases a with
  | invoke n request =>
    simp only [step, Option.ite_none_right_eq_some, Option.some.injEq] at h
    obtain ⟨hn, rfl⟩ := h
    refine .invoke fun s hm => ?_
    have hl := List.lookup_eq_none_iff.mp (Option.isNone_iff_eq_none.mp hn) (n, s) hm
    simp at hl
  | cancel n =>
    simp only [step, cancel?] at h
    split at h
    · next stage hc =>
      split at h
      · next hs => cases h; exact .cancel (mem_calls_of_callStage? hc) hs
      · cases h
    · cases h
  | close => cases h; exact .close
  | drop =>
    simp only [step, Option.ite_none_right_eq_some, Option.some.injEq] at h
    obtain ⟨hc, rfl⟩ := h
    exact .drop (List.isEmpty_iff.mp hc)
  | tick ms => cases h; exact .tick
  | proceed t =>
    cases t with
    | fetcher i =>
      obtain ⟨w, hw, h⟩ := Option.bind_eq_some_iff.mp h
      exact .fetcher hw h
    | emitter j =>
      obtain ⟨w, hw, h⟩ := Option.bind_eq_some_iff.mp h
      exact .emitter hw h
    | call n =>
      obtain ⟨s, hs, h⟩ := Option.bind_eq_some_iff.mp h
      exact .call (mem_calls_of_callStage? hs) h
  | abort t =>
    cases t with
    | fetcher i =>
      obtain ⟨w, hw, h⟩ := Option.bind_eq_some_iff.mp h
      exact .abortFetcher hw h
    | emitter j =>
      obtain ⟨w, hw, h⟩ := Option.bind_eq_some_iff.mp h
      exact .abortEmitter hw h
    | call n => cases h
  | clientReturns i r =>
    obtain ⟨w, hw, h⟩ := Option.bind_eq_some_iff.mp h
    exact .clientReturns hw h
  | processReturns i r =>
    obtain ⟨w, hw, h⟩ := Option.bind_eq_some_iff.mp h
    exact .processReturns hw h
  | emitReturns j r =>
    obtain ⟨w, hw, h⟩ := Option.bind_eq_some_iff.mp h
    exact .emitReturns hw h

theorem step_move {p q : Pipeline} {a : Action} (h : p.step a = some q) : Move p q := by
  cases step_taken h with
  | invoke hn => exact .invoke hn (invoke_move p _ _)
  | cancel hm hs => exact .cancel hm hs
  | close => exact .close
  | drop hc => exact .drop hc
  | tick => exact .tick
  | call hm h => exact .call hm (stepCall?_move h)
  | fetcher hw h => exact .fetcher hw (stepFetcher?_move h)
  | emitter hw h => exact .emitter hw (stepEmitter?_move h)
  | abortFetcher hw h => exact .fetcher hw (abortFetcher?_move h)
  | abortEmitter hw h => exact .emitter hw (abortEmitter?_move h)
  | clientReturns hw h => exact .fetcher hw (clientReturned?_move h)
  | processReturns hw h => exact .fetcher hw (processReturned?_move h)
  | emitReturns hw h => exact .emitter hw (emitReturned?_move h)

/-- A pipeline is built only from valid settings, and empty. -/
theorem build_eq_built {settings : Settings} {origin : Instant} {p : Pipeline}
    (h : build settings origin = .built p) :
    settings.validate = .ok () ∧ settings.queueSize.toNat ≤ maxCapacity ∧
      p = { settings, origin
            intake := { capacity := settings.queueSize.toNat }
            outtake := { capacity := emitQueueSize } } := by
  unfold build at h
  split at h
  · cases h
  · next hc =>
    split at h
    · cases h
    · next hq =>
      cases h
      refine ⟨?_, Nat.le_of_not_lt hq, rfl⟩
      unfold Settings.check at hc
      cases hv : settings.validate with
      | ok u => rfl
      | error e => rw [hv] at hc; cases hc

/-- What holds before a run and is kept whenever the run is extended holds after it. -/
theorem run_induction {I : List Action → Pipeline → Prop} {p q : Pipeline} {as : List Action}
    (h : p.run as = some q) (h₀ : I [] p)
    (hstep : ∀ as a r s, p.run as = some r → I as r → r.step a = some s → I (as ++ [a]) s) :
    I as q := by
  induction as using List.reverseRecOn generalizing q with
  | nil => cases h; exact h₀
  | append_singleton as a ih =>
    rw [run_append, Option.bind_eq_some_iff] at h
    obtain ⟨r, hr, hq⟩ := h
    exact hstep as a r q hr (ih hr) (by simpa using hq)

/-- What holds at the start and is kept by every move from a state that has been reached
holds wherever a run leads. -/
theorem Reaches.invariant {I : Pipeline → Prop} {p q : Pipeline} (h : p.Reaches q) (h₀ : I p)
    (hmove : ∀ r s, p.Reaches r → I r → Move r s → I s) : I q := by
  obtain ⟨as, has⟩ := h
  exact run_induction (I := fun _ => I) has h₀
    fun as a r s hr ih hs => hmove r s ⟨as, hr⟩ ih (step_move hs)

theorem Reaches.trans {p q r : Pipeline} (hpq : p.Reaches q) (hqr : q.Reaches r) : p.Reaches r := by
  obtain ⟨as, has⟩ := hpq
  obtain ⟨bs, hbs⟩ := hqr
  exact ⟨as ++ bs, by simp [run_append, has, hbs]⟩

end Pipeline

end DocumentPipeline
