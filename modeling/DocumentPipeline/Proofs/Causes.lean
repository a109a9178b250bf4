import DocumentPipeline.Proofs.Endings
import DocumentPipeline.Proofs.Handoffs

/-! # Where failures come from

A worker that ends because its poll has met a failure ends after that failure was latched, so it
is never taken for a cause. What a caller is told of a failed worker is what a worker of that pool
failed of by itself, and what it is told of a stall is the wait of a stop signal. If the
collaborators only ever fail for one item at a time, no worker fails at all.
-/
namespace DocumentPipeline

/-- The error that a caller is told, if it is told one. -/
def Reply.error? : Reply → Option PipelineError
  | offered (.error e) | finished (.error e) | active (.error e) => some e
  | _ => none

/-- Whether the error only says that a request cannot be served. -/
@[simp] def PipelineError.declines : PipelineError → Bool
  | notInitialized | shuttingDown | batchTooLarge _ _ => true
  | _ => false

/-- Whether the event latches a failure or tells a caller of an error. -/
@[simp] def Event.claims : Event → Bool
  | latched _ => true
  | replied _ r => r.error?.isSome
  | _ => false

/-- Whether a step from this stage may latch a failure or tell its caller of an error. -/
@[simp] def CallStage.claims : CallStage → Bool
  | offering _ _ | offerPolling _ _ | offerInjecting _ _ _ | batching _ _ | stallingOut | checking
  | checkInjecting _ => true
  | _ => false

theorem CallStage.not_claims_of_records {s : CallStage} {n : Nat} {e : Event}
    (hs : s.claims = false) (h : s.records n e) : e.claims = false := by
  cases s with
  | starting | launching | sending | pausing | finishing | stopping | reading =>
    simp only [records] at h
    grind [Event.claims, Reply.error?]
  | _ => cases hs

/-- What a failure says is on record: a worker of its pool failed by itself for that reason, or a
stop signal of its name waited to the ceiling. -/
def Failure.Grounded (s : Settings) (h : History) : Failure → Prop
  | worker role reason => ∃ t ending pool, (t, ending) ∈ h.log Event.exit ∧
    ending.isOwn = true ∧ ending.reason? = some reason ∧ t.role? = some pool ∧ role = pool.label
  | stalled what waitedMs => ∃ pool : Role, what = pool.cargo.label ∧
    waitedMs = s.maxOfferWaitMs.toNat ∧ h.GaveUp pool waitedMs

theorem Failure.Grounded.of_suffix {s : Settings} {f : Failure} {past h : History}
    (hf : f.Grounded s past) (hs : past <:+ h) : f.Grounded s h := by
  cases f with
  | worker role reason =>
    obtain ⟨t, ending, pool, hm, hrest⟩ := hf
    exact ⟨t, ending, pool, (History.log_prefix_of_suffix _ hs).subset hm, hrest⟩
  | stalled what ms =>
    obtain ⟨pool, hw, hms, hg⟩ := hf
    exact ⟨pool, hw, hms, hg.of_suffix hs⟩

/-- The error declines a request, or it tells of a failure that is on record. -/
def PipelineError.Justified (s : Settings) (h : History) (e : PipelineError) : Prop :=
  e.declines = true ∨ ∃ f : Failure, f.Grounded s h ∧ e = f.error

/-- What must be on record when a failure is latched and when a caller is told of an error. -/
def Justified (s : Settings) : Event → History → Prop
  | .latched f, past => f.Grounded s past
  | .replied _ r, past => ∀ e, r.error? = some e → e.Justified s past
  | _, _ => True

theorem justified_of_not_claims {s : Settings} {e : Event} {past : History}
    (h : e.claims = false) : Justified s e past := by
  cases e with
  | latched f => cases h
  | replied n r =>
    intro e he
    rw [Event.claims, he] at h
    cases h
  | _ => trivial

/-- The failure that is latched is on record. -/
theorem History.Each.failure?_grounded {s : Settings} {f : Failure} {h : History}
    (he : Each (Justified s) h) (hf : h.failure? = some f) : f.Grounded s h := by
  induction h with
  | nil => cases hf
  | cons x h ih =>
    obtain ⟨time, e⟩ := x
    by_cases hl : ∃ g, e = .latched g
    · obtain ⟨g, rfl⟩ := hl
      obtain rfl : g = f := Option.some.inj hf
      exact Failure.Grounded.of_suffix he.1 (List.suffix_cons _ _)
    · rw [failure?_of_ne fun g hg => hl ⟨g, hg⟩] at hf
      exact (ih he.2 hf).of_suffix (List.suffix_cons _ _)

theorem History.failure?_eq_none_iff {h : History} :
    h.failure? = none ↔ ∀ x ∈ h, ∀ f, x.event ≠ .latched f := by
  induction h with
  | nil => simp [failure?]
  | cons x h ih =>
    by_cases hl : ∃ f, x.event = .latched f
    · obtain ⟨f, hf⟩ := hl
      simp [failure?, hf]
    · have hne : ∀ f, x.event ≠ .latched f := fun f hf => hl ⟨f, hf⟩
      rw [failure?_of_ne hne, ih]
      simp [hne]

namespace Pipeline

variable {p q p₀ : Pipeline} {n i : Nat} {t : Task} {s : CallStage} {settings : Settings}
  {origin : Instant}

theorem failureOf?_congr {e : Ending} (h : q.tracker.roles = p.tracker.roles) :
    q.failureOf? t e = p.failureOf? t e := by
  cases e <;> simp [failureOf?, roleName, h]

/-- A collection that finds a failure has found it at a worker that ended. -/
theorem collectFrom_failed {exits : List (Task × Ending)} {f : Failure}
    (hc : p.collectFrom exits = (q, some f)) :
    ∃ r t e, Collects p r ∧ (t, e) ∈ exits ∧ p.failureOf? t e = some f ∧ q = r.fail f := by
  induction exits generalizing p with
  | nil => cases hc
  | cons x rest ih =>
    obtain ⟨t, e⟩ := x
    have hcount := collects_countExit (t := t) p rest e
    have hsame (u : Task) (d : Ending) :
        ({ p with tracker := { p.tracker with exits := rest } }.countExit t e).failureOf? u d =
          p.failureOf? u d :=
      failureOf?_congr (congrArg Prod.fst (muster_countExit rest))
    rw [collectFrom] at hc
    split at hc
    · obtain ⟨r, u, d, hr, hm, hf, hq⟩ := ih hc
      exact ⟨r, u, d, hcount.trans hr, List.mem_cons_of_mem _ hm, (hsame u d).symm.trans hf, hq⟩
    · next g hg =>
      cases hc
      exact ⟨_, t, e, hcount, List.mem_cons_self, (hsame t e).symm.trans hg, rfl⟩

/-- What a poll comes to rests on what is on record: the failure that is latched, and the workers
that have ended and were not collected. -/
structure Basis (p : Pipeline) : Prop where
  justified : History.Each (Justified p.settings) p.history
  latched : ∀ f, p.tracker.failure = some f → f.Grounded p.settings p.history
  ended : p.tracker.failure = none → ∀ t e f, (t, e) ∈ p.tracker.exits →
    p.failureOf? t e = some f → f.Grounded p.settings p.history

namespace Basis

/-- Nothing is claimed, and the tracker stays as it is. -/
theorem adds (h : Basis p) (hs : q.settings = p.settings) (ht : q.tracker = p.tracker)
    (ha : History.Adds (fun e => e.claims = false) p.history q.history) : Basis q where
  justified := by
    rw [hs]
    exact ha.each (fun _ _ he => justified_of_not_claims he) h.justified
  latched f hf := by
    rw [ht] at hf
    rw [hs]
    exact (h.latched f hf).of_suffix ha.suffix
  ended hn t e f hm hf := by
    rw [ht] at hn hm
    rw [hs]
    refine (h.ended hn t e f hm ?_).of_suffix ha.suffix
    rwa [failureOf?_congr (p := p) (congrArg Tracker.roles ht)] at hf

theorem not_claims_of_collected {r : Pipeline} (hc : Collects p r) :
    History.Adds (fun e => e.claims = false) p.history r.history :=
  hc.history.mono fun e ⟨t, d, he⟩ => by subst he; rfl

/-- A poll latches and tells of nothing but what is on record. -/
theorem poll {v : Pipeline × Verdict} (h : Basis p) (hr : PollResult p t v) :
    History.Each (Justified p.settings) v.1.history ∧
      ∀ e, v.2 = .failed e → e.Justified p.settings v.1.history := by
  have collected {r : Pipeline} (hc : Collects p r) :
      History.Each (Justified p.settings) r.history :=
    (not_claims_of_collected hc).each (fun _ _ he => justified_of_not_claims he) h.justified
  cases hr with
  | notStarted => exact ⟨h.justified, fun e he => .inl (by cases he; rfl)⟩
  | latched _ hf =>
    exact ⟨h.justified, fun e he => .inr ⟨_, h.latched _ hf, by cases he; rfl⟩⟩
  | @failed q f _ hf hc =>
    obtain ⟨r, t, e, hr, hm, hfe, rfl⟩ := collectFrom_failed hc
    have hg : f.Grounded p.settings r.history :=
      (h.ended hf t e f hm hfe).of_suffix hr.history.suffix
    have hj := collected hr
    refine ⟨⟨hg, hj⟩, fun e he => .inr ⟨f, ?_, by cases he; rfl⟩⟩
    exact hg.of_suffix (List.suffix_cons _ _)
  | injecting _ _ hc =>
    have hj := collected (collects_of_collect hc)
    exact ⟨⟨trivial, hj⟩, fun e he => by cases he⟩
  | noEmitters _ _ hc | active _ _ hc =>
    have hj := collected (collects_of_collect hc)
    exact ⟨hj, fun e he => by cases he⟩

theorem tryPoll {w : Fetcher} (h : Basis p) :
    History.Each (Justified p.settings) (p.tryPoll i w).history := by
  unfold Pipeline.tryPoll
  dsimp only
  split
  · have hq : Basis (p.requestTracker (.fetcher i)) := h.adds rfl rfl (.refl _)
    have hj := (hq.poll (poll_result _ (.fetcher i))).1
    generalize (p.requestTracker (.fetcher i)).poll (.fetcher i) = v at hj
    obtain ⟨r, v⟩ := v
    cases v with
    | failed e =>
      simp only [afterFetcherPoll, endFetcher]
      split
      · exact ⟨trivial, trivial, hj⟩
      · exact ⟨trivial, hj⟩
    | active | injecting => exact hj
  · exact h.justified

end Basis

theorem justified_afterOfferPoll {item : WorkItem} {wait : Wait} {v : Pipeline × Verdict}
    (hj : History.Each (Justified settings) v.1.history)
    (hv : ∀ e, v.2 = .failed e → e.Justified settings v.1.history) :
    History.Each (Justified settings) (afterOfferPoll n item wait v).history := by
  obtain ⟨q, v⟩ := v
  cases v with
  | failed e => exact ⟨fun e' he => by cases he; exact hv _ rfl, hj⟩
  | active | injecting => exact hj

theorem justified_afterCheckPoll {v : Pipeline × Verdict}
    (hj : History.Each (Justified settings) v.1.history)
    (hv : ∀ e, v.2 = .failed e → e.Justified settings v.1.history) :
    History.Each (Justified settings) (afterCheckPoll n v).history := by
  obtain ⟨q, v⟩ := v
  cases v with
  | failed e => exact ⟨fun e' he => by cases he; exact hv _ rfl, hj⟩
  | active b => exact ⟨fun e he => (by cases he), hj⟩
  | injecting i => exact hj

theorem declines_of_refusal? {e : PipelineError} (h : p.refusal? = some e) :
    e.declines = true := by
  unfold refusal? at h
  grind [PipelineError.declines]

theorem Invocation.justified {r : Request} (h : Invocation p n r q)
    (hj : History.Each (Justified p.settings) p.history) :
    History.Each (Justified p.settings) q.history := by
  cases h with
  | start | check | status | offer | batch | finish => exact hj
  | batchRefused hr => exact ⟨fun e he => .inl (by cases he; exact declines_of_refusal? hr), hj⟩
  | batchTooLarge | finishEarly | finishLate =>
    exact ⟨fun e he => .inl (by cases he; rfl), hj⟩
  | batchEmpty | finishAgain => exact ⟨fun e he => (by cases he), hj⟩

/-- Whatever failed did so on its own account before any failure was latched, and nobody is told
of a failure that is not on record. -/
structure Causal (p : Pipeline) : Prop where
  justified : History.Each (Justified p.settings) p.history
  own : p.tracker.failure = none → ∀ t e, (t, e) ∈ p.history.log Event.exit →
    e.isFailure = true → e.isOwn = true

namespace Causal

theorem basis (h : Causal p) (hr : p₀.Reaches p) (hb : build settings origin = .built p₀) :
    Basis p where
  justified := h.justified
  latched f hf := h.justified.failure?_grounded ((hr.latching hb).kept.trans hf)
  ended hn t e f hm hf := by
    have ht := hr.tracked hb
    have hexit : (t, e) ∈ p.history.log Event.exit := by
      rw [ht.exits]
      exact List.mem_append_right _ hm
    obtain ⟨pool, hpool, hname⟩ := (hr.enrolled hb).roleName ht.toRoster hexit
    have grounded {reason : String} (he : e.isFailure = true) (hreason : e.reason? = some reason)
        (hf : f = .worker pool.label reason) : f.Grounded p.settings p.history := by
      subst hf
      exact ⟨t, e, pool, hexit, h.own hn t e hexit he, hreason, hpool, rfl⟩
    cases e with
    | failed err =>
      refine grounded rfl rfl (Option.some.inj (hf.symm.trans ?_))
      simp [failureOf?, hpool]
    | panicked m =>
      refine grounded rfl rfl (Option.some.inj (hf.symm.trans ?_))
      simp [failureOf?, hname]
    | finished | aborted => cases hf

/-- An injection that stalls latches the stall of its signal. -/
theorem justified_injected {i : Injection} {v : Pipeline × Verdict} (h : Causal p)
    (hr : p₀.Reaches p) (hb : build settings origin = .built p₀)
    (hm : (n, .checkInjecting i) ∈ p.calls) (hi : Injected p (.call n) i v) :
    History.Each (Justified p.settings) v.1.history ∧
      ∀ e, v.2 = .failed e → e.Justified p.settings v.1.history := by
  cases hi with
  | last => exact ⟨⟨trivial, h.justified⟩, fun e he => by cases he⟩
  | next => exact ⟨⟨trivial, trivial, h.justified⟩, fun e he => by cases he⟩
  | stalled hslot hd hq hf =>
    subst hq hf
    have hg : Failure.Grounded p.settings
        (⟨p.now, .handoffStalled (.call n) .emitStop⟩ :: p.history)
        (.stalled Cargo.emitStop.label p.ceiling) :=
      ⟨.emit, rfl, rfl, (hr.handoffs hb).gaveUp_emit hr hb hm hslot hd⟩
    refine ⟨⟨hg, trivial, h.justified⟩, fun e he => .inr ⟨_, ?_, by cases he; rfl⟩⟩
    exact hg.of_suffix (List.suffix_cons _ _)

theorem justified_call (h : Causal p) (hr : p₀.Reaches p)
    (hb : build settings origin = .built p₀) (hm : (n, s) ∈ p.calls) (hc : CallMove p n s q) :
    History.Each (Justified p.settings) q.history := by
  have hj := h.justified
  cases hs : s.claims with
  | false =>
    exact hc.records.each
      (fun _ _ he => justified_of_not_claims (CallStage.not_claims_of_records hs he)) hj
  | true =>
    cases hc with
    | offerRefused _ hr | batchRefused _ hr =>
      exact ⟨fun e he => .inl (by cases he; exact declines_of_refusal? hr), hj⟩
    | offerAccepted => exact hj
    | offerPolled =>
      obtain ⟨hj, hv⟩ := (h.basis hr hb).poll (poll_result p (.call n))
      exact justified_afterOfferPoll hj hv
    | checked =>
      obtain ⟨hj, hv⟩ := (h.basis hr hb).poll (poll_result p (.call n))
      exact justified_afterCheckPoll hj hv
    | offerInjected => exact absurd hm ((hr.handshake hb).offer n _ _ _)
    | checkInjected hi =>
      obtain ⟨hj, hv⟩ := h.justified_injected hr hb hm (inject?_injected hi)
      exact justified_afterCheckPoll hj hv
    | stalledOut =>
      have hg : Failure.Grounded p.settings p.history
          (.stalled Cargo.fetchStop.label p.ceiling) :=
        ⟨.fetch, rfl, rfl, (hr.handoffs hb).stalled n hm⟩
      refine ⟨fun e he => .inr ⟨.stalled Cargo.fetchStop.label p.ceiling, ?_, ?_⟩, hg, hj⟩
      · exact hg.of_suffix (List.suffix_cons _ _)
      · cases he; rfl
    | batchAdmitted hl =>
      cases hl with
      | first => exact ⟨fun e he => (by cases he), trivial, trivial, hj⟩
      | again => cases hs
    | batchExpired hl =>
      cases hl with
      | first => exact ⟨fun e he => (by cases he), trivial, hj⟩
      | again => cases hs
    | batchPaused => exact ⟨trivial, hj⟩
    | _ => cases hs

theorem justified_fetcher {w : Fetcher} (h : Causal p) (hr : p₀.Reaches p)
    (hb : build settings origin = .built p₀) (hw : p.fetchers[i]? = some w)
    (hf : FetcherMove p i w q) : History.Each (Justified p.settings) q.history := by
  have hbasis := h.basis hr hb
  have polls {r : Pipeline} (hs : r.settings = p.settings) (ht : r.tracker = p.tracker)
      (ha : History.Adds (fun e => e.claims = false) p.history r.history) :
      History.Each (Justified p.settings) (r.tryPoll i w).history :=
    hs ▸ (hbasis.adds hs ht ha).tryPoll
  have ending {r : Pipeline} {e : Ending} (hj : History.Each (Justified p.settings) r.history) :
      History.Each (Justified p.settings) (r.endFetcher i w e).history := by
    simp only [endFetcher]
    split
    · exact ⟨trivial, trivial, hj⟩
    · exact ⟨trivial, hj⟩
  cases hf with
  | abort | notCreated => exact ending h.justified
  | create | acquire => exact h.justified
  | created => exact ⟨trivial, h.justified⟩
  | receiveStop => exact ending ⟨trivial, h.justified⟩
  | receiveItem => exact ⟨trivial, trivial, h.justified⟩
  | idle => exact polls rfl rfl (.refl _)
  | handOver => exact ⟨trivial, trivial, h.justified⟩
  | settle | handed => exact polls rfl rfl (.trans (.one rfl) (.one rfl))
  | lose | stalled => exact ending ⟨trivial, h.justified⟩
  | @injected j v hst =>
    exact absurd (by simp [fetchStage?, hw, hst]) ((hr.handshake hb).fetcher i j)

theorem justified_move (h : Causal p) (hr : p₀.Reaches p) (hb : build settings origin = .built p₀)
    (hm : Move p q) : History.Each (Justified p.settings) q.history := by
  cases hm with
  | @invoke m r q hn hi => exact hi.justified (p := p.record (.invoked m r)) ⟨trivial, h.justified⟩
  | cancel | drop => exact ⟨trivial, h.justified⟩
  | close =>
    unfold Pipeline.close
    split <;> exact ⟨trivial, h.justified⟩
  | tick => exact h.justified
  | call hm hc => exact h.justified_call hr hb hm hc
  | fetcher hw hf => exact h.justified_fetcher hr hb hw hf
  | emitter hw he =>
    exact he.records.each (fun e _ hw => justified_of_not_claims (by cases e <;> simp_all))
      h.justified

end Causal

end Pipeline

/-- Whether a hand-off has reached its ceiling. -/
@[simp] def Event.isStall : Event → Bool
  | handoffStalled _ _ => true
  | _ => false

theorem History.GaveUp.isStall {role : Role} {ceiling : Nat} {h : History}
    (hg : h.GaveUp role ceiling) : ∃ x ∈ h, x.event.isStall = true := by
  obtain ⟨later, past, t, began, ended, rfl, -⟩ := hg
  exact ⟨_, List.mem_append_right _ List.mem_cons_self, rfl⟩

theorem Ending.isOwn_of_isCollaborators {e : Ending} (h : e.isCollaborators = true) :
    e.isOwn = true := by
  cases e with
  | failed err => cases err <;> first | rfl | cases h
  | _ => first | rfl | cases h

/-- A collaborator fails, if at all, for one item only. -/
@[simp] def Action.Contained : Action → Prop
  | clientReturns _ r => r = .value ()
  | processReturns _ r => r.outcome? ≠ none
  | emitReturns _ r => r = .value () ∨ ∃ e, r = .error e ∧ e.isUnrecoverable = false
  | _ => True

namespace Pipeline

variable {p q p₀ : Pipeline} {i j : Nat} {settings : Settings} {origin : Instant} {a : Action}

/-- A worker that waits for its client does nothing by itself. -/
theorem stepFetcher?_atClient {w : Fetcher} (hs : w.stage.atClient = true) :
    p.stepFetcher? i w = none := by
  obtain ⟨stage, abortRequested⟩ := w
  cases stage <;> first | rfl | cases hs

theorem stepEmitter?_atEmitter {w : EmitWorker} (hs : w.stage.atEmitter = true) :
    p.stepEmitter? j w = none := by
  obtain ⟨stage, abortRequested⟩ := w
  cases stage <;> first | rfl | cases hs

/-- The client of a worker is done with its item, and has not failed for good. -/
theorem Ended.processReturned? {w : Fetcher} {r : Return ClientError Outcome}
    (h : p.processReturned? i w r = some q) (hc : r.outcome? ≠ none)
    (hs : p.trackerLock.isFree = true → p.started = true) :
    Ended p q (.fetcher i) False False := by
  have accepted {item : WorkItem} {since : Nat} {o : Outcome} :
      Ended p ((p.record (.processEnded i item r)).acceptOutcome i w item o since)
        (.fetcher i) False False := by
    unfold acceptOutcome
    split
    · exact .of_adds (.trans (.one rfl) (.one rfl))
    · exact .after (.tryPoll hs) (by simp [record])
  unfold Pipeline.processReturned? at h
  split at h
  · dsimp only at h
    split at h
    · cases h; exact accepted
    · split at h
      · cases h; exact accepted
      · next he => simp [Return.outcome?, he] at hc
    · exact absurd rfl hc
  · cases h

/-- The emitter is done with a payload, and has not failed for good. -/
theorem Ended.emitReturned? {w : EmitWorker} {r : Return EmitError Unit}
    (h : p.emitReturned? j w r = some q)
    (hc : r = .value () ∨ ∃ e, r = .error e ∧ e.isUnrecoverable = false) :
    Ended p q (.emitter j) False False := by
  unfold Pipeline.emitReturned? at h
  split at h
  · rcases hc with rfl | ⟨e, rfl, he⟩
    · cases h; exact .of_adds (.one rfl)
    · simp only [he] at h
      cases h
      exact .of_adds (.one rfl)
  · cases h

/-- A worker that ends with a step ends for some reason. If all failures are contained, it is not
that a collaborator failed. -/
theorem Reaches.step_ended (h : p₀.Reaches p) (hb : build settings origin = .built p₀)
    (hs : p.step a = some q) :
    ∃ t signalled busy, Ended p q t signalled busy ∧ (a.Contained → ¬ busy) := by
  have none_ended (he : q.history.log Event.exit = p.history.log Event.exit) :
      ∃ t signalled busy, Ended p q t signalled busy ∧ (a.Contained → ¬ busy) :=
    ⟨.call 0, False, False, .silent he, fun _ => id⟩
  have moved {i : Nat} {w : Fetcher} (hw : p.fetchers[i]? = some w) (hf : FetcherMove p i w q) :
      Ended p q (.fetcher i) (∃ ms, p.intake.messages = .stop :: ms) (w.stage.atClient = true) := by
    refine hf.ended (h.started_of_free hb hw) fun k hk => ?_
    exact (h.handshake hb).fetcher i k (by simp [fetchStage?, hw, hk])
  cases step_taken hs with
  | @invoke n request => exact none_ended ((invoke_move p n request).exits.trans (by simp [record]))
  | cancel => exact none_ended (by simp [record, release])
  | close =>
    refine none_ended ?_
    unfold Pipeline.close
    split <;> simp [record, abortAll]
  | drop => exact none_ended (by simp [Pipeline.drop, record, abortAll])
  | tick => exact none_ended rfl
  | @fetcher i w _ hw hs =>
    cases hc : w.stage.atClient with
    | true => cases (stepFetcher?_atClient hc).symm.trans hs
    | false => exact ⟨_, _, _, moved hw (stepFetcher?_move hs), fun _ => ne_true_of_eq_false hc⟩
  | @emitter j w _ hw hs =>
    cases hc : w.stage.atEmitter with
    | true => cases (stepEmitter?_atEmitter hc).symm.trans hs
    | false => exact ⟨_, _, _, (stepEmitter?_move hs).ended, fun _ => ne_true_of_eq_false hc⟩
  | abortFetcher _ hs =>
    simp only [abortFetcher?, Option.ite_none_right_eq_some, Option.some.injEq] at hs
    obtain ⟨-, rfl⟩ := hs
    exact ⟨_, False, False, .endFetcher .aborted, fun _ => id⟩
  | abortEmitter _ hs =>
    simp only [abortEmitter?, Option.ite_none_right_eq_some, Option.some.injEq] at hs
    obtain ⟨-, rfl⟩ := hs
    exact ⟨_, False, False, .endEmitter .aborted, fun _ => id⟩
  | call _ hs => exact none_ended (stepCall?_move hs).exits
  | @clientReturns i w r _ hw hs =>
    by_cases hc : r = .value ()
    · subst hc
      unfold clientReturned? at hs
      split at hs
      · cases hs
        exact ⟨.call 0, False, False, .of_adds (.one rfl), fun _ => id⟩
      · cases hs
    · exact ⟨_, _, _, moved hw (clientReturned?_move hs), fun hcont => absurd hcont hc⟩
  | @processReturns i w r _ hw hs =>
    by_cases hc : r.outcome? ≠ none
    · exact ⟨_, _, _, .processReturned? hs hc (h.started_of_free hb hw), fun _ => id⟩
    · exact ⟨_, _, _, moved hw (processReturned?_move hs), fun hcont => absurd hcont hc⟩
  | @emitReturns j w r _ hw hs =>
    by_cases hc : r = .value () ∨ ∃ e, r = .error e ∧ e.isUnrecoverable = false
    · exact ⟨_, _, _, .emitReturned? hs hc, fun _ => id⟩
    · exact ⟨_, _, _, (emitReturned?_move hs).ended, fun hcont => absurd hcont hc⟩

theorem Causal.step (h : Causal p) (hr : p₀.Reaches p) (hb : build settings origin = .built p₀)
    (hs : p.step a = some q) : Causal q where
  justified := by
    rw [(step_move hs).settings]
    exact h.justified_move hr hb (step_move hs)
  own hn t e hm he := by
    have hp : p.tracker.failure = none := by
      rw [← (hr.latching hb).kept]
      rw [← ((hr.step hs).latching hb).kept] at hn
      exact History.failure?_of_suffix (step_move hs).suffix hn
    obtain ⟨u, signalled, busy, hended, -⟩ := hr.step_ended hb hs
    rcases hended (t, e) hm with hm | ⟨-, hby⟩
    · exact h.own hp t e hm he
    · cases hby with
      | finished | aborted => cases he
      | collaborator hc => exact Ending.isOwn_of_isCollaborators hc
      | stalled => rfl
      | told hf => cases hn.symm.trans hf

theorem Reaches.causal (h : p.Reaches q) (hb : build settings origin = .built p) : Causal q := by
  obtain ⟨as, has⟩ := h
  refine run_induction (I := fun _ => Causal) has ?_ fun as a r s hr ih hs =>
    ih.step ⟨as, hr⟩ hb hs
  obtain ⟨-, -, rfl⟩ := build_eq_built hb
  exact ⟨trivial, by simp⟩

/-- A poll that finds no failed worker latches nothing. -/
theorem PollResult.unlatched {t : Task} {v : Pipeline × Verdict} (h : PollResult p t v)
    (hf : p.tracker.failure = none)
    (he : ∀ t e, (t, e) ∈ p.tracker.exits → e.isFailure = false) :
    v.1.tracker.failure = none := by
  cases h with
  | notStarted | latched => exact hf
  | failed _ _ hc =>
    obtain ⟨r, t, e, -, hm, hfe, -⟩ := collectFrom_failed hc
    rw [failureOf?_eq_none_iff.mpr (he t e hm)] at hfe
    cases hfe
  | @injecting r _ _ hc | @noEmitters r _ _ hc | @active r _ _ hc =>
    exact (show _ = r.tracker.failure from rfl).trans ((collects_of_collect hc).failure.trans hf)

/-- Without a failed worker and a stalled hand-off nothing is latched. -/
theorem Move.unlatched (h : Move p q) (hr : p₀.Reaches p) (hb : build settings origin = .built p₀)
    (hf : p.tracker.failure = none)
    (he : ∀ t e, (t, e) ∈ p.history.log Event.exit → e.isFailure = false)
    (hn : ∀ x ∈ q.history, x.event.isStall = false) : q.tracker.failure = none := by
  have hexits : ∀ t e, (t, e) ∈ p.tracker.exits → e.isFailure = false := fun t e hm =>
    he t e (by rw [(hr.tracked hb).exits]; exact List.mem_append_right _ hm)
  have checked {n : Nat} {v : Pipeline × Verdict} :
      (afterCheckPoll n v).tracker.failure = v.1.tracker.failure := by
    obtain ⟨r, v⟩ := v
    cases v <;> rfl
  cases h.judged (hr.handshake hb) with
  | calm hc => exact hc.failure.trans hf
  | @polled _ r t _ ht hq =>
    rw [hq.failure]
    refine (poll_result r t).unlatched (ht ▸ hf) fun u e hm => hexits u e ?_
    rwa [ht] at hm
  | checked => exact checked.trans ((poll_result p _).unlatched hf hexits)
  | injected hm hi =>
    rw [checked]
    cases hi with
    | last | next => exact hf
    | stalled _ _ hq =>
      subst hq
      exact absurd (hn _ (List.mem_cons_of_mem _ (List.mem_cons_of_mem _ List.mem_cons_self)))
        (by simp)
  | stalledOut hm =>
    obtain ⟨x, hx, hstall⟩ := ((hr.handoffs hb).stalled _ hm).isStall
    have := hn x (h.suffix.subset hx)
    rw [hstall] at this
    cases this

/-- If all failures are contained and no hand-off reaches its ceiling, no worker fails. -/
theorem run_contained {as : List Action} (h : p.run as = some q)
    (hb : build settings origin = .built p) (hc : ∀ a ∈ as, a.Contained)
    (hn : ∀ x ∈ q.history, x.event.isStall = false) :
    (∀ t e, (t, e) ∈ q.history.log Event.exit → e.isFailure = false) ∧
      q.tracker.failure = none := by
  -- the two facts carry each other: a worker passes on what was latched, and a poll latches what
  -- a worker failed with
  refine run_induction (I := fun as r => (∀ a ∈ as, a.Contained) →
    (∀ x ∈ r.history, x.event.isStall = false) →
      (∀ t e, (t, e) ∈ r.history.log Event.exit → e.isFailure = false) ∧
        r.tracker.failure = none) h ?_ (fun as a r s hr ih hs hc hn => ?_) hc hn
  · obtain ⟨-, -, rfl⟩ := build_eq_built hb
    exact fun _ _ => ⟨by simp, rfl⟩
  · have hreached : p.Reaches r := ⟨as, hr⟩
    have hm := step_move hs
    obtain ⟨hexits, hfailure⟩ := ih (fun a ha => hc a (List.mem_append_left _ ha))
      fun x hx => hn x (hm.suffix.subset hx)
    have hnone := hm.unlatched hreached hb hfailure hexits hn
    refine ⟨fun t e hte => ?_, hnone⟩
    obtain ⟨u, signalled, busy, hended, hbusy⟩ := hreached.step_ended hb hs
    rcases hended (t, e) hte with hte | ⟨-, hby⟩
    · exact hexits t e hte
    · cases hby with
      | finished | aborted => rfl
      | collaborator _ hb => exact absurd hb (hbusy (hc a (by simp)))
      | stalled hx hev =>
        have := hn _ hx
        rw [hev] at this
        cases this
      | told hf => cases hnone.symm.trans hf

/-- What a caller that is told of a failure can rely on. -/
structure Genuine (p : Pipeline) : Prop where
  /-- A worker of the pool that is named ended, and by itself: its error, or its panic, is what
  the caller is told. -/
  workerFailed : ∀ (later past : History) time n r role reason,
    p.history = later ++ ⟨time, .replied n r⟩ :: past →
    r.error? = some (.workerFailed role reason) →
      role ≠ "unknown" ∧ ∃ t ending pool, (t, ending) ∈ past.log Event.exit ∧
        t.role? = some pool ∧ role = pool.label ∧ ending.reason? = some reason ∧
        ending.isOwn = true
  /-- A stop signal waited as long as it may, and all the time its queue was full. -/
  stalled : ∀ (later past : History) time n r what waitedMs,
    p.history = later ++ ⟨time, .replied n r⟩ :: past →
    r.error? = some (.stalled what waitedMs) →
      waitedMs = p.settings.maxOfferWaitMs.toNat ∧
        ∃ pool : Role, what = pool.cargo.label ∧ past.GaveUp pool waitedMs

theorem Causal.genuine (h : Causal p) : Genuine p where
  workerFailed later past time n r role reason hh hr := by
    have hj := h.justified
    rw [hh] at hj
    rcases hj.of_suffix ⟨later, rfl⟩ _ hr with hd | ⟨f, hf, he⟩
    · cases hd
    · cases f with
      | stalled => cases he
      | worker role' reason' =>
        cases he
        obtain ⟨t, ending, pool, hm, hown, hreason, hpool, hlabel⟩ := hf
        refine ⟨?_, t, ending, pool, hm, hpool, hlabel, hreason, hown⟩
        rw [hlabel]
        cases pool <;> decide
  stalled later past time n r what waitedMs hh hr := by
    have hj := h.justified
    rw [hh] at hj
    rcases hj.of_suffix ⟨later, rfl⟩ _ hr with hd | ⟨f, hf, he⟩
    · cases hd
    · cases f with
      | worker => cases he
      | stalled what' ms =>
        cases he
        obtain ⟨pool, hwhat, hms, hg⟩ := hf
        exact ⟨hms, pool, hwhat, hg⟩

/-- In every run, a caller is told of failures that happened, and of nobody else's than those
that failed by themselves. If the collaborators fail for one item at a time only, every client is
created and no hand-off reaches its ceiling, then no worker fails and no failure is latched. -/
theorem run_genuine {as : List Action} (h : p.run as = some q)
    (hb : build settings origin = .built p) :
    Genuine q ∧
      ((∀ a ∈ as, a.Contained) → (∀ x ∈ q.history, x.event.isStall = false) →
        (∀ t e, (t, e) ∈ q.history.log Event.exit → e.isFailure = false) ∧
          ∀ x ∈ q.history, ∀ f, x.event ≠ .latched f) := by
  have hreached : p.Reaches q := ⟨as, h⟩
  refine ⟨(hreached.causal hb).genuine, fun hc hn => ?_⟩
  obtain ⟨hexits, hfailure⟩ := run_contained h hb hc hn
  exact ⟨hexits, History.failure?_eq_none_iff.mp ((hreached.latching hb).kept.trans hfailure)⟩

/-- One item crashes its client, another one cannot be delivered. -/
def failingItems : List Action :=
  .invoke 0 .start :: List.replicate 4 (.proceed (.call 0)) ++
    [.proceed (.fetcher 0), .clientReturns 0 (.value ()), .proceed (.emitter 0),
      .proceed (.emitter 0), .invoke 1 (.offer default .endless), .proceed (.call 1),
      .proceed (.call 1), .proceed (.call 1), .proceed (.fetcher 0), .proceed (.fetcher 0),
      .processReturns 0 (.error (.io default)),
      .invoke 2 (.offer default .endless), .proceed (.call 2), .proceed (.call 2),
      .proceed (.call 2), .proceed (.fetcher 0), .proceed (.fetcher 0),
      .processReturns 0 (.value (.parsed default)), .proceed (.fetcher 0), .proceed (.emitter 0),
      .emitReturns 0 (.error (.failed default default)), .invoke 3 .checkActive,
      .proceed (.call 3)]

theorem failingItems_contained : ∀ a ∈ failingItems, a.Contained := by
  simp [failingItems, Return.outcome?, ClientError.isPerItem, EmitError.isUnrecoverable]

/-- A failed worker and a stall are told of as they were; failing items are not told of. -/
theorem failingItems_genuine :
    ∃ p q r, build tight default = .built p ∧ p.run overtakenFailure = some q ∧
      p.run failingItems = some r ∧ Genuine q ∧ r.totalProcessed = 2 ∧
      (∀ t e, (t, e) ∈ r.history.log Event.exit → e.isFailure = false) ∧
      ∀ x ∈ r.history, ∀ f, x.event ≠ .latched f := by
  obtain ⟨p, q, r, hb, hq, hr, hcount, hstall⟩ :
      ∃ p q r, build tight default = .built p ∧ p.run overtakenFailure = some q ∧
        p.run failingItems = some r ∧ r.totalProcessed = 2 ∧
        ∀ x ∈ r.history, x.event.isStall = false :=
    ⟨_, _, _, rfl, rfl, rfl, rfl, by decide⟩
  exact ⟨p, q, r, hb, hq, hr, (run_genuine hq hb).1, hcount,
    (run_genuine hr hb).2 failingItems_contained hstall⟩

end Pipeline

end DocumentPipeline
