import DocumentPipeline.Proofs.Balance
import DocumentPipeline.Proofs.Sections

/-! # Order of the intake queue

A submission looks at the flag of the shutdown under the producer lock and keeps the lock
until its items are on the queue. The announcement raises the flag first and then queues
for the same lock. So the items of a submission stay together, and no item comes behind a
stop signal.
-/
namespace DocumentPipeline

/-- Whether a call at this stage has been let in and may still put items on the intake
queue. -/
@[simp] def CallStage.admits : CallStage → Bool
  | offerPolling _ _ | offerInjecting _ _ _ | sending _ _ | pausing _ _ _ => true
  | _ => false

theorem CallStage.holdsProducer_of_admits {s : CallStage} (h : s.admits = true) :
    s.holdsProducer = true := by
  cases s <;> simp_all

theorem CallStage.not_admits_of_announces {s : CallStage} (h : s.announces = true) :
    s.admits = false := by
  cases s <;> simp_all

namespace Pipeline

/-- Whole submissions were put on the intake queue, then stop signals. Once there is a stop
signal, no call can add an item. -/
structure Ordered (p : Pipeline) : Prop where
  queued : ∃ k, p.history.log Event.enqueued =
    (History.submissions p.history).flatMap (·.map .data) ++ List.replicate k .stop
  sealed : .stop ∈ p.history.log Event.enqueued → p.shuttingDown = true ∧
    ∀ n s, (n, s) ∈ p.calls → s.admits = false

namespace Ordered

variable {p q : Pipeline} {n : Nat} {s u : CallStage}

/-- Nothing is put on the intake queue, and a call that is let in finds the pipeline not
shutting down. -/
theorem of_quiet (h : Ordered p)
    (hl : q.history.log Event.enqueued = p.history.log Event.enqueued)
    (hs : History.submissions q.history = History.submissions p.history)
    (hd : p.shuttingDown = true → q.shuttingDown = true)
    (hc : ∀ n s, (n, s) ∈ q.calls → s.admits = true →
      p.shuttingDown = false ∨ ∃ u, (n, u) ∈ p.calls ∧ u.admits = true) : Ordered q where
  queued := by rw [hl, hs]; exact h.queued
  sealed hm := by
    rw [hl] at hm
    obtain ⟨hdown, hnone⟩ := h.sealed hm
    refine ⟨hd hdown, fun n s hn => ?_⟩
    cases ha : s.admits with
    | false => rfl
    | true =>
      rcases hc n s hn ha with hf | ⟨u, hu, hua⟩
      · rw [hf] at hdown; cases hdown
      · rw [hnone n u hu] at hua; cases hua

/-- Neither the log of the intake queue nor the calls change. -/
theorem of_same (h : Ordered p)
    (hl : q.history.log Event.enqueued = p.history.log Event.enqueued)
    (hs : History.submissions q.history = History.submissions p.history)
    (hd : p.shuttingDown = true → q.shuttingDown = true) (hc : q.calls = p.calls) : Ordered q :=
  h.of_quiet hl hs hd fun _ s hn ha => .inr ⟨s, hc ▸ hn, ha⟩

theorem of_kept (h : Ordered p) (hk : CallsKept p q) : Ordered q :=
  h.of_same hk.enqueued hk.submissions hk.shuttingDown hk.calls

/-- The event is of no concern to the order. -/
theorem record {e : Event} (h : Ordered p) (he : e.enqueued = [])
    (hs : ∀ n, e ≠ .replied n (.offered (.ok true))) : Ordered (p.record e) :=
  h.of_same (by simp only [Pipeline.record, History.log_cons, he, List.append_nil])
    (History.submissions_of_ne hs) id rfl

/-- A call ends without having put anything on the queue just now. -/
theorem reply {a : Reply} (h : Ordered p) (ha : a ≠ .offered (.ok true)) :
    Ordered (p.reply n a) := by
  have hs : History.submissions (p.reply n a).history = History.submissions p.history :=
    History.submissions_of_ne (by simpa using ha)
  refine h.of_quiet (by simp [Pipeline.reply, Pipeline.release, Pipeline.record]) hs id ?_
  intro m u hm hu
  exact .inr ⟨u, (mem_reply.mp hm).2, hu⟩

theorem setCall (h : Ordered p)
    (hu : u.admits = true → p.shuttingDown = false ∨ ∃ s, (n, s) ∈ p.calls ∧ s.admits = true) :
    Ordered (p.setCall n u) := by
  refine h.of_quiet rfl rfl id fun m v hm hv => ?_
  rcases mem_setCall.mp hm with ⟨rfl, rfl, -⟩ | ⟨-, hm⟩
  · exact hu hv
  · exact .inr ⟨v, hm, hv⟩

theorem addCall (h : Ordered p) (hu : u.admits = false) : Ordered (p.addCall n u) := by
  refine h.of_quiet rfl rfl id fun m v hm hv => ?_
  rcases mem_addCall.mp hm with hm | ⟨rfl, rfl⟩
  · exact .inr ⟨v, hm, hv⟩
  · rw [hu] at hv; cases hv

theorem requestTracker {t : Task} (h : Ordered p) : Ordered (p.requestTracker t) :=
  h.of_kept (.requestTracker (.refl p))

theorem requestProducer {t : Task} (h : Ordered p) : Ordered (p.requestProducer t) :=
  h.of_kept (.requestProducer (.refl p))

theorem launch {t : Task} {role : Role} (h : Ordered p) : Ordered (p.launch t role) := by
  cases role <;>
    exact h.of_same (by simp [Pipeline.launch, Pipeline.record]) rfl id rfl

/-- The items of a submission that nothing bars are put on the queue at once, and its caller
is told. -/
theorem enter {r : Request} {intake : Queue WorkItem} {items : List WorkItem} (h : Ordered p)
    (hr : History.requestOf n p.history = some r) (hi : r.items = items)
    (hn : .stop ∉ p.history.log Event.enqueued) :
    Ordered (({ p with intake }.record (.admitted n items)).reply n (.offered (.ok true))) where
  queued := by
    obtain ⟨k, hk⟩ := h.queued
    have hzero : k = 0 := by
      by_contra hpos
      exact hn (hk ▸ List.mem_append_right _ (by simp [hpos]))
    subst hzero
    refine ⟨0, ?_⟩
    simp [Pipeline.reply, Pipeline.release, Pipeline.record, History.submissions,
      History.requestOf, hr, hi, hk]
  sealed hm := by
    simp only [Pipeline.reply, Pipeline.release, Pipeline.record, History.log_cons,
      Event.enqueued, List.append_nil, List.mem_append, List.mem_map] at hm
    rcases hm with hm | ⟨item, -, hm⟩
    · exact absurd hm hn
    · cases hm

/-- A stop signal is put on the queue by a call that holds the producer lock. -/
theorem queueStop (intake : Queue WorkItem) (h : Ordered p) (hx : Sections p)
    (hm : (n, s) ∈ p.calls) (held : p.producerLock.heldBy (.call n) = true)
    (ha : s.announces = true) : Ordered ({ p with intake }.record (.stopQueued .fetch)) where
  queued := by
    obtain ⟨k, hk⟩ := h.queued
    exact ⟨k + 1, by
      simp [Pipeline.record, History.submissions, hk, List.replicate_succ']⟩
  sealed _ := by
    refine ⟨hx.announced n s hm ha, fun m u hu => ?_⟩
    cases hua : u.admits with
    | false => rfl
    | true =>
      obtain ⟨-, rfl⟩ := hx.producer_unique hm hu held (CallStage.holdsProducer_of_admits hua)
      rw [CallStage.not_admits_of_announces ha] at hua
      cases hua

theorem invocation {r : Request} (h : Ordered p)
    (hr : History.requestOf n p.history = some r) (hi : Invocation p n r q) : Ordered q := by
  cases hi with
  | start | check | status => exact requestTracker (h.addCall rfl)
  | offer | batch => exact requestProducer (h.addCall rfl)
  | batchRefused | batchTooLarge | finishEarly | finishLate => exact h.reply (by simp)
  | batchEmpty =>
    -- an empty submission adds nothing, also behind a stop signal
    constructor
    · obtain ⟨k, hk⟩ := h.queued
      exact ⟨k, by simp [Pipeline.reply, Pipeline.release, Pipeline.record, History.submissions,
        hr, Request.items, hk]⟩
    · intro hm
      obtain ⟨hd, hn⟩ := h.sealed (by
        simpa [Pipeline.reply, Pipeline.release, Pipeline.record] using hm)
      exact ⟨hd, fun m u hu => hn m u (mem_reply.mp hu).2⟩
  | finishAgain =>
    have hs : Ordered { p with shuttingDown := true } := h.of_same rfl rfl (fun _ => rfl) rfl
    exact hs.reply (by simp)
  | finish =>
    have hs : Ordered { p with shuttingDown := true, stopsClaimed := true } :=
      h.of_same rfl rfl (fun _ => rfl) rfl
    exact requestProducer (hs.addCall rfl)

theorem afterOfferPoll {item : WorkItem} {wait : Wait} {v : Pipeline × Verdict} (h : Ordered v.1)
    (hm : (n, s) ∈ v.1.calls) (hs : s.admits = true) :
    Ordered (afterOfferPoll n item wait v) := by
  obtain ⟨q, v⟩ := v
  cases v with
  | failed e => exact h.reply (by simp)
  | injecting i => exact h.setCall fun _ => .inr ⟨s, hm, hs⟩
  | active b =>
    have hsent : Ordered (q.setCall n (.sending item (wait.timeout q.now))) :=
      h.setCall fun _ => .inr ⟨s, hm, hs⟩
    exact hsent.of_same rfl rfl id rfl

theorem afterCheckPoll {v : Pipeline × Verdict} (h : Ordered v.1) :
    Ordered (afterCheckPoll n v) := by
  obtain ⟨q, v⟩ := v
  cases v with
  | failed e => exact h.reply (by simp)
  | active b => exact h.reply (by simp)
  | injecting i => exact h.setCall (by simp)

theorem not_shuttingDown_of_refusal? (h : p.refusal? = none) : p.shuttingDown = false := by
  unfold refusal? at h
  grind

/-- A batch that looks for room has been let in, or is let in now. -/
theorem of_looking {items : List WorkItem} {deadline : Option Nat}
    (hl : Looking p n items deadline s) : p.shuttingDown = false ∨ s.admits = true := by
  cases hl with
  | first held hr => exact .inl (not_shuttingDown_of_refusal? hr)
  | again hw => exact .inr rfl

theorem call (h : Ordered p) (hx : Sections p) (hm : (n, s) ∈ p.calls) (hc : CallMove p n s q) :
    Ordered q := by
  cases hc with
  | startedBefore | offerRefused | unsent | batchRefused | noStops | read => exact h.reply (by simp)
  | launching => exact h.setCall (by simp)
  | launchFetcher | launchEmitter => exact setCall h.launch (by simp)
  | opened => exact reply (h.of_same rfl rfl id rfl) (by simp)
  | offerAccepted held hr =>
    exact requestTracker (h.setCall fun _ => .inl (not_shuttingDown_of_refusal? hr))
  | offerPolled =>
    have hk : CallsKept p (p.poll (.call n)).1 := .of_polled (.poll _ _)
    exact afterOfferPoll (h.of_kept hk) (by rw [hk.calls]; exact hm) rfl
  | offerInjected hi =>
    have hk := CallsKept.injected (inject?_injected hi)
    exact afterOfferPoll (h.of_kept hk) (by rw [hk.calls]; exact hm) rfl
  | sent =>
    obtain ⟨r, hr, wait, rfl⟩ := hx.request n _ hm
    refine h.enter hr rfl fun hstop => ?_
    cases (h.sealed hstop).2 n _ hm
  | @batchAdmitted _ items deadline hl =>
    obtain ⟨r, hr, hs⟩ := hx.request n s hm
    have ht : Ordered (p.record (.tested n p.intake.free)) := h.record rfl (by simp)
    refine ht.enter (r := r) hr ?_ fun hstop => ?_
    · cases hl <;> obtain ⟨wait, rfl⟩ := hs <;> rfl
    · have hstop : .stop ∈ p.history.log Event.enqueued := by
        simpa [Pipeline.record] using hstop
      obtain ⟨hd, hn⟩ := h.sealed hstop
      rcases of_looking hl with hf | ha
      · rw [hf] at hd; cases hd
      · rw [hn n s hm] at ha; cases ha
  | batchExpired => exact reply (h.record rfl (by simp)) (by simp)
  | batchPaused hl =>
    refine setCall (h.record rfl (by simp)) fun _ => ?_
    rcases of_looking hl with hf | ha
    · exact .inl hf
    · exact .inr ⟨s, hm, ha⟩
  | firstStop => exact setCall (h.of_same (by simp [Pipeline.record]) rfl id rfl) (by simp)
  | lastStop => exact reply (h.queueStop _ hx hm (hx.producer n _ hm rfl) rfl) (by simp)
  | @nextStop r deadline =>
    have hq := h.queueStop (p.intake.push (.call n) .stop) hx hm
      (hx.producer n _ hm rfl) rfl
    exact setCall (hq.of_same (by simp [Pipeline.record]) rfl id rfl) (by simp)
  | stopStalled =>
    have hq : Ordered
        ({ p with intake := p.intake.leave (.call n) }.record
          (.handoffStalled (.call n) .fetchStop)) :=
      h.of_same (by simp [Pipeline.record]) rfl id rfl
    exact requestTracker (setCall hq (by simp))
  | stalledOut => exact reply (h.of_kept (.of_polled (.fail _ _))) (by simp)
  | checked => exact afterCheckPoll (h.of_kept (.of_polled (.poll _ _)))
  | checkInjected hi => exact afterCheckPoll (h.of_kept (.injected (inject?_injected hi)))

theorem move (h : Ordered p) (hx : Sections p) (hm : Move p q) : Ordered q := by
  cases hm with
  | @invoke n r q hn hi =>
    have hinvoked : Ordered (p.record (.invoked n r)) := h.record rfl (by simp)
    exact hinvoked.invocation (by simp [Pipeline.record, History.requestOf]) hi
  | @cancel n stage hm hs =>
    refine h.of_quiet (by simp [Pipeline.record, Pipeline.release]) rfl id fun m u hu ha => ?_
    exact .inr ⟨u, (List.mem_filter.mp hu).1, ha⟩
  | close => exact h.of_kept (.close p)
  | drop => exact h.of_kept (.drop p)
  | tick => exact h.of_same rfl rfl id rfl
  | call hm hc => exact h.call hx hm hc
  | fetcher hw hf => exact h.of_kept hf.callsKept
  | emitter hw he => exact h.of_kept he.callsKept

end Ordered

variable {settings : Settings} {origin : Instant} {p q : Pipeline}

theorem ordered_of_build (h : build settings origin = .built p) : Ordered p := by
  obtain ⟨-, -, rfl⟩ := build_eq_built h
  exact ⟨⟨0, rfl⟩, by simp⟩

theorem Reaches.ordered (h : p.Reaches q) (hb : build settings origin = .built p) : Ordered q :=
  h.invariant (ordered_of_build hb) fun _ _ hr ih hm => ih.move (hr.sections hb) hm

/-- What the fetch workers receive together is the beginning of what was put on the intake
queue, and that is one whole admitted submission after the other, then stop signals. -/
theorem Reaches.intake_order (h : p.Reaches q) (hb : build settings origin = .built p) :
    q.history.log Event.enqueued =
        (q.history.log Event.receipt).map Prod.snd ++ q.intake.messages ∧
      ∃ k, q.history.log Event.enqueued =
        (History.submissions q.history).flatMap (·.map .data) ++ List.replicate k .stop :=
  ⟨(h.balanced hb).intake, (h.ordered hb).queued⟩

/-- Room for two items and one worker in each pool. -/
def narrow : Settings := { queueSize := 2, numClients := 1, numEmitters := 1 }

/-- A batch fills the queue, an offer that has been let in waits for room, and the end of
the work is announced before the offer gets its slot. -/
def crowdedIntake : List Action :=
  .invoke 0 .start :: List.replicate 4 (.proceed (.call 0)) ++
    [.invoke 1 (.offerBatch [default, default] .endless), .proceed (.call 1),
      .invoke 2 (.offer default .endless), .proceed (.call 2), .proceed (.call 2),
      .invoke 3 .finish,
      .proceed (.fetcher 0), .clientReturns 0 (.value ()), .proceed (.fetcher 0),
      .proceed (.fetcher 0), .proceed (.call 2), .proceed (.call 3),
      .processReturns 0 (.value .crashed), .proceed (.fetcher 0), .proceed (.fetcher 0),
      .proceed (.call 3)]

theorem crowdedIntake_order :
    ∃ p q, build narrow default = .built p ∧ p.run crowdedIntake = some q ∧
      (History.submissions q.history).map List.length = [2, 1] ∧
      q.history.log Event.enqueued =
        (q.history.log Event.receipt).map Prod.snd ++ q.intake.messages ∧
      ∃ k, q.history.log Event.enqueued =
        (History.submissions q.history).flatMap (·.map .data) ++ List.replicate k .stop := by
  refine ⟨_, _, rfl, rfl, rfl, ?_⟩
  exact Reaches.intake_order ⟨crowdedIntake, rfl⟩ (show build narrow default = _ from rfl)

end Pipeline

end DocumentPipeline
