import DocumentPipeline.Proofs.Handshake

/-! # Where failures are latched and checks are answered

Only polls, the injections they come to and an announcement that stalled latch failures, and
only the polls of checks tell a caller whether workers are still running. All other steps leave
the tracker's verdict alone.
-/
namespace DocumentPipeline

/-- Whether the event takes notice of a worker that ended, latches a failure or answers a
check. -/
@[simp] def Event.isVerdict : Event → Bool
  | collected _ _ | latched _ | replied _ (.active _) => true
  | _ => false

theorem Event.collection_of_not_isVerdict {e : Event} (h : e.isVerdict = false) :
    e.collection = [] := by
  cases e <;> first | rfl | cases h

namespace Pipeline

/-- No worker is collected, no failure latched and no check answered. -/
structure Calm (p q : Pipeline) : Prop where
  failure : q.tracker.failure = p.tracker.failure
  sent : q.tracker.emitStopSent = p.tracker.emitStopSent
  started : p.started = true → q.started = true
  claimed : q.stopsClaimed = true → p.stopsClaimed = true ∨ q.started = true
  history : History.Adds (fun e => e.isVerdict = false) p.history q.history

/-- What a verdict rests on. -/
def bench (p : Pipeline) : Tracker × Bool × Bool × History :=
  (p.tracker, p.started, p.stopsClaimed, p.history)

namespace Calm

variable {p q r : Pipeline} {t : Task} {n : Nat}

theorem refl (p : Pipeline) : Calm p p := ⟨rfl, rfl, id, .inl, .refl _⟩

theorem trans (hpq : Calm p q) (hqr : Calm q r) : Calm p r where
  failure := hqr.failure.trans hpq.failure
  sent := hqr.sent.trans hpq.sent
  started h := hqr.started (hpq.started h)
  claimed h := by
    rcases hqr.claimed h with hq | hr
    · exact (hpq.claimed hq).imp_right hqr.started
    · exact .inr hr
  history := hpq.history.trans hqr.history

theorem collections (h : Calm p q) :
    q.history.log Event.collection = p.history.log Event.collection :=
  h.history.log fun _ => Event.collection_of_not_isVerdict

/-- Nothing happens to the tracker and nothing is recorded. -/
theorem quiet (h : Calm p q) (hr : r.bench = q.bench) : Calm p r := by
  simp only [bench, Prod.mk.injEq] at hr
  obtain ⟨ht, hs, hc, hh⟩ := hr
  exact h.trans ⟨by rw [ht], by rw [ht], fun h => hs ▸ h, fun h => .inl (hc ▸ h), hh ▸ .refl _⟩

theorem record {e : Event} (h : Calm p q) (he : e.isVerdict = false) : Calm p (q.record e) :=
  h.trans ⟨rfl, rfl, id, .inl, .one he⟩

/-- One event is recorded, and nothing else happens that a verdict rests on. -/
theorem noting {e : Event} (h : Calm p q) (hr : r.bench = (q.record e).bench)
    (he : e.isVerdict = false) : Calm p r :=
  (h.record he).quiet hr

theorem reply {a : Reply} (h : Calm p q) (ha : (Event.replied n a).isVerdict = false) :
    Calm p (q.reply n a) :=
  h.noting rfl ha

theorem endWorker {e : Ending} (h : Calm p q) : Calm p (q.endWorker t e) :=
  h.trans ⟨rfl, rfl, id, .inl, .one rfl⟩

theorem endFetcher {i : Nat} {w : Fetcher} {e : Ending} (h : Calm p q) :
    Calm p (q.endFetcher i w e) := by
  unfold Pipeline.endFetcher
  refine endWorker (quiet (q := if w.stage.hasClient then _ else _) ?_ rfl)
  split
  · exact h.record rfl
  · exact h

theorem endEmitter {j : Nat} {e : Ending} (h : Calm p q) : Calm p (q.endEmitter j e) :=
  endWorker (q := q.setEmitter j .exited) (h.quiet rfl)

theorem launch {role : Role} (h : Calm p q) : Calm p (q.launch t role) := by
  cases role <;> exact h.trans ⟨rfl, rfl, id, .inl, .one rfl⟩

theorem queueEmitStop {r : Nat} (h : Calm p q) : Calm p (q.queueEmitStop t r).1 :=
  h.noting rfl rfl

theorem queueFetchStop {r : Nat} (h : Calm p q) : Calm p (q.queueFetchStop n r) :=
  h.noting rfl rfl

theorem afterOfferPoll {item : WorkItem} {wait : Wait} {v : Pipeline × Verdict}
    (h : Calm p v.1) : Calm p (afterOfferPoll n item wait v) := by
  obtain ⟨q, v⟩ := v
  cases v with
  | failed e => exact h.reply rfl
  | active b => exact h.quiet rfl
  | injecting i => exact h.quiet rfl

theorem afterFetcherPoll {i : Nat} {w : Fetcher} {v : Pipeline × Verdict} (h : Calm p v.1) :
    Calm p (afterFetcherPoll i w v) := by
  obtain ⟨q, v⟩ := v
  cases v with
  | failed e => exact h.endFetcher
  | active b => exact h.quiet rfl
  | injecting i => exact h.quiet rfl

theorem invocation {r : Request} (hi : Invocation p n r q) : Calm p q := by
  have hp : Calm p p := refl p
  cases hi with
  | start | check | status | offer | batch => exact hp.quiet rfl
  | batchRefused | batchTooLarge | batchEmpty | finishEarly | finishLate => exact hp.reply rfl
  | finishAgain => exact .reply (q := { p with shuttingDown := true }) (hp.quiet rfl) rfl
  | finish hs => exact ⟨rfl, rfl, id, fun _ => .inr hs, .refl _⟩

end Calm

/-- What a step means for the failure that is latched and for the checks. -/
inductive Judged (p : Pipeline) : Pipeline → Prop
  | calm {q} (h : Calm p q) : Judged p q
  /-- An offer or a fetch worker polls. -/
  | polled {q r t} (hr : Calm p r) (ht : r.tracker = p.tracker) (hq : Calm (r.poll t).1 q) :
      Judged p q
  | checked {n} : Judged p (afterCheckPoll n (p.poll (.call n)))
  | injected {n i v} (hm : (n, .checkInjecting i) ∈ p.calls) (hi : Injected p (.call n) i v) :
      Judged p (afterCheckPoll n v)
  | stalledOut {n} (hm : (n, .stallingOut) ∈ p.calls) :
      Judged p ((p.fail (.stalled Cargo.fetchStop.label p.ceiling)).reply n
        (.finished (.error (.stalled Cargo.fetchStop.label p.ceiling))))

variable {p q : Pipeline} {n i : Nat}

theorem Judged.tryPoll {r : Pipeline} {w : Fetcher} (hr : Calm p r) (ht : r.tracker = p.tracker) :
    Judged p (r.tryPoll i w) := by
  unfold Pipeline.tryPoll
  split
  · have hr' : Calm p (r.requestTracker (.fetcher i)) := hr.quiet rfl
    exact .polled hr' ht (.afterFetcherPoll (.refl _))
  · exact .calm (hr.quiet rfl)

theorem CallMove.judged {s : CallStage} (h : CallMove p n s q) (hk : Handshake p)
    (hm : (n, s) ∈ p.calls) : Judged p q := by
  have hp : Calm p p := .refl p
  cases h with
  | startedBefore | offerRefused | unsent | batchRefused | noStops | read =>
    exact .calm (hp.reply rfl)
  | launching | offerAccepted => exact .calm (hp.quiet rfl)
  | @launchFetcher c =>
    have hq : Calm p (p.launch (.fetcher c) .fetch) := hp.launch
    exact .calm (hq.quiet rfl)
  | @launchEmitter c =>
    have hq : Calm p (p.launch (.emitter (c - p.settings.numClients.toNat)) .emit) := hp.launch
    exact .calm (hq.quiet rfl)
  | opened => exact .calm ⟨rfl, rfl, fun _ => rfl, fun _ => .inr rfl, .one rfl⟩
  | offerPolled => exact .polled hp rfl (.afterOfferPoll (.refl _))
  | offerInjected => exact absurd hm (hk.offer n _ _ _)
  | sent | lastStop => exact .calm (.reply (hp.noting rfl rfl) rfl)
  | batchAdmitted =>
    have htested : Calm p (p.record (.tested n p.intake.free)) := hp.record rfl
    exact .calm (.reply (htested.noting rfl rfl) rfl)
  | batchExpired => exact .calm (.reply (hp.record rfl) rfl)
  | batchPaused =>
    have htested : Calm p (p.record (.tested n p.intake.free)) := hp.record rfl
    exact .calm (htested.quiet rfl)
  | firstStop => exact .calm hp.queueFetchStop
  | nextStop =>
    have hpush : Calm p
        ({ p with intake := p.intake.push (.call n) .stop }.record (.stopQueued .fetch)) :=
      hp.noting rfl rfl
    exact .calm hpush.queueFetchStop
  | stopStalled => exact .calm (hp.noting rfl rfl)
  | stalledOut => exact .stalledOut hm
  | checked => exact .checked
  | checkInjected hi => exact .injected hm (inject?_injected hi)

theorem FetcherMove.judged {w : Fetcher} (h : FetcherMove p i w q) (hk : Handshake p)
    (hw : p.fetchers[i]? = some w) : Judged p q := by
  have hp : Calm p p := .refl p
  cases h with
  | abort | notCreated => exact .calm hp.endFetcher
  | create | acquire => exact .calm (hp.quiet rfl)
  | created => exact .calm (hp.noting rfl rfl)
  | receiveStop =>
    have hr : Calm p ({ p with intake := _ }.record (.received i .stop)) :=
      .record (hp.quiet rfl) rfl
    exact .calm (.endFetcher (hr.quiet rfl))
  | receiveItem => exact .calm (.noting (hp.noting rfl rfl) rfl rfl)
  | idle => exact .tryPoll (hp.quiet rfl) rfl
  | handOver => exact .calm ⟨rfl, rfl, id, .inl, .trans (.one rfl) (.one rfl)⟩
  | settle => exact .tryPoll ⟨rfl, rfl, id, .inl, .trans (.one rfl) (.one rfl)⟩ rfl
  | lose => exact .calm (.endFetcher (hp.record rfl))
  | handed => exact .tryPoll ⟨rfl, rfl, id, .inl, .trans (.one rfl) (.one rfl)⟩ rfl
  | stalled => exact .calm (.endFetcher (hp.noting rfl rfl))
  | @injected j v hs => exact absurd (by simp [fetchStage?, hw, hs]) (hk.fetcher i j)

theorem EmitterMove.calm {j : Nat} {w : EmitWorker} (h : EmitterMove p j w q) : Calm p q := by
  have hp : Calm p p := .refl p
  cases h with
  | abort => exact hp.endEmitter
  | queue | acquire => exact hp.quiet rfl
  | takeStop => exact .endEmitter (hp.noting rfl rfl)
  | takePayload => exact ⟨rfl, rfl, id, .inl, .trans (.one rfl) (.one rfl)⟩
  | delivered => exact hp.noting rfl rfl
  | failed => exact .endEmitter (hp.record rfl)

theorem Move.judged (h : Move p q) (hk : Handshake p) : Judged p q := by
  have hp : Calm p p := .refl p
  cases h with
  | invoke hn hi => exact .calm ((hp.record rfl).trans (.invocation hi))
  | cancel => exact .calm (hp.noting rfl rfl)
  | close =>
    refine .calm (.record ?_ rfl)
    split
    · exact hp
    · exact hp.quiet rfl
  | drop => exact .calm (.record (hp.quiet rfl) rfl)
  | tick => exact .calm (hp.quiet rfl)
  | call hm hc => exact hc.judged hk hm
  | fetcher hw hf => exact hf.judged hk hw
  | emitter hw he => exact .calm he.calm

end Pipeline

end DocumentPipeline
