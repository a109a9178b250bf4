import DocumentPipeline.Proofs.Balance
import DocumentPipeline.Proofs.Sections

/-! # Calls that wait

A call is moved on by its own steps only, and nobody else puts on record that it begins, that
it ends or what it has admitted. While it holds the producer lock, the intake queue only loses
messages beside its own steps.
-/
namespace DocumentPipeline

namespace Event

/-- The call whose beginning, end or admission the event tells of. -/
@[simp] def caller? : Event → Option Nat
  | invoked n _ | replied n _ | cancelled n | admitted n _ => some n
  | _ => none

theorem caller?_of_not_isCalling {e : Event} (h : e.isCalling = false) : e.caller? = none := by
  cases e <;> simp_all

/-- Whether the event belongs to a completion poll or to the injection it may come to. -/
@[simp] def isPolling : Event → Bool
  | collected _ _ | latched _ | handoffBegan _ _ | stopQueued .emit
  | handoffStalled _ .emitStop => true
  | _ => false

theorem isPolling_of_isTracking {e : Event} (h : e.isTracking = true) : e.isPolling = true := by
  cases e <;> simp_all

/-- Whether the event ends a call. -/
@[simp] def ends (n : Nat) : Event → Prop
  | replied m _ | cancelled m => m = n
  | _ => False

end Event

/-- The stage at which a call that makes this request begins to wait. -/
def Request.firstStage : Request → CallStage
  | start => .starting
  | offer item wait => .offering item wait
  | offerBatch items wait => .batching items wait
  | finish => .finishing
  | checkActive => .checking
  | status => .reading

/-- What a call may put on record with its step from a stage. -/
@[simp] def CallStage.records (n : Nat) : CallStage → Event → Prop
  | starting, e => e = .replied n .started
  | launching _, e => (∃ t, e = .launched t) ∨ e = .replied n .started
  | offering _ _, e => ∃ err, e = .replied n (.offered (.error err))
  | offerPolling _ _, e | offerInjecting _ _ _, e =>
    e.isPolling = true ∨ ∃ err, e = .replied n (.offered (.error err))
  | sending item _, e => e = .admitted n [item] ∨ ∃ b, e = .replied n (.offered (.ok b))
  | batching items _, e =>
    (∃ k, e = .tested n k) ∨ e = .admitted n items ∨ ∃ r, e = .replied n (.offered r)
  | pausing items _ _, e =>
    (∃ k, e = .tested n k) ∨ e = .admitted n items ∨ ∃ b, e = .replied n (.offered (.ok b))
  | finishing, e => e = .handoffBegan (.call n) .fetchStop ∨ e = .replied n (.finished (.ok ()))
  | stopping _ _, e =>
    e = .stopQueued .fetch ∨ e = .handoffBegan (.call n) .fetchStop ∨
      e = .handoffStalled (.call n) .fetchStop ∨ e = .replied n (.finished (.ok ()))
  | stallingOut, e =>
    (∃ ms, e = .latched (.stalled Cargo.fetchStop.label ms)) ∨
      ∃ err, e = .replied n (.finished (.error err))
  | checking, e | checkInjecting _, e => e.isPolling = true ∨ ∃ r, e = .replied n (.active r)
  | reading, e => ∃ st, e = .replied n (.status st)

namespace Pipeline

/-- A call does nothing. -/
structure Waits (n : Nat) (p q : Pipeline) : Prop where
  calls : ∀ s, (n, s) ∈ q.calls ↔ (n, s) ∈ p.calls
  history : History.Adds (fun e => e.caller? ≠ some n) p.history q.history

namespace Waits

variable {p q r : Pipeline} {n m : Nat} {t : Task} {u : CallStage}

theorem silent (hc : q.calls = p.calls) (hh : q.history = p.history) : Waits n p q :=
  ⟨fun _ => by rw [hc], hh ▸ .refl _⟩

theorem single {x : Entry} (hc : q.calls = p.calls) (hh : q.history = x :: p.history)
    (hx : x.event.caller? ≠ some n) : Waits n p q :=
  ⟨fun _ => by rw [hc], hh ▸ .one hx⟩

theorem refl (p : Pipeline) : Waits n p p := silent rfl rfl

theorem trans (hpq : Waits n p q) (hqr : Waits n q r) : Waits n p r :=
  ⟨fun s => (hqr.calls s).trans (hpq.calls s), hpq.history.trans hqr.history⟩

theorem of_kept (h : CallsKept p q) : Waits n p q := by
  refine ⟨fun _ => by rw [h.calls], h.history.mono fun e he => ?_⟩
  rw [Event.caller?_of_not_isCalling he]
  simp

theorem kept (h : Waits n p q) (hk : CallsKept q r) : Waits n p r := h.trans (of_kept hk)

theorem polled (h : Waits n p q) (hp : Polled q r) : Waits n p r := h.kept (.of_polled hp)

theorem record {e : Event} (h : Waits n p q) (he : e.caller? ≠ some n) : Waits n p (q.record e) :=
  h.trans (single rfl rfl he)

/-- Another call ends. -/
theorem leave {x : Entry} (h : Waits n p q) (hne : n ≠ m)
    (hc : r.calls = q.calls.filter (·.1 ≠ m)) (hh : r.history = x :: q.history)
    (hx : x.event.caller? ≠ some n) : Waits n p r := by
  refine h.trans ⟨fun s => ?_, hh ▸ .one hx⟩
  simp [hc, hne]

theorem reply {a : Reply} (h : Waits n p q) (hne : n ≠ m) : Waits n p (q.reply m a) :=
  h.leave hne rfl rfl (by simpa using hne.symm)

theorem setCall (h : Waits n p q) (hne : n ≠ m) : Waits n p (q.setCall m u) := by
  refine h.trans ⟨fun s => ?_, .refl _⟩
  simp [mem_setCall, hne]

theorem addCall (h : Waits n p q) (hne : n ≠ m) : Waits n p (q.addCall m u) := by
  refine h.trans ⟨fun s => ?_, .refl _⟩
  simp [mem_addCall, hne]

theorem queueFetchStop {k : Nat} (h : Waits n p q) (hne : n ≠ m) :
    Waits n p (q.queueFetchStop m k) := by
  have hjoined : Waits n q
      ({ q with intake := q.intake.join (.call m) }.record (.handoffBegan (.call m) .fetchStop)) :=
    .single rfl rfl (by simp)
  exact (h.trans hjoined).setCall hne

theorem launch {role : Role} (h : Waits n p q) : Waits n p (q.launch t role) := by
  cases role <;> exact h.trans (single rfl rfl (by simp))

theorem afterOfferPoll {item : WorkItem} {wait : Wait} {v : Pipeline × Verdict}
    (h : Waits n p v.1) (hne : n ≠ m) : Waits n p (afterOfferPoll m item wait v) := by
  obtain ⟨q, v⟩ := v
  cases v with
  | failed e => exact h.reply hne
  | injecting i => exact h.setCall hne
  | active b =>
    exact setCall (q := { q.releaseTracker (.call m) with intake := q.intake.join (.call m) })
      (h.trans (silent rfl rfl)) hne

theorem afterCheckPoll {v : Pipeline × Verdict} (h : Waits n p v.1) (hne : n ≠ m) :
    Waits n p (afterCheckPoll m v) := by
  obtain ⟨q, v⟩ := v
  cases v with
  | failed e => exact h.reply hne
  | active b => exact h.reply hne
  | injecting i => exact h.setCall hne

/-- What is known of a call from its own events stays as it is. -/
theorem ignored {β : Type} {F : History → β} (h : Waits n p q)
    (hF : ∀ x h, x.event.caller? ≠ some n → F (x :: h) = F h) : F q.history = F p.history :=
  h.history.ignored hF

end Waits

variable {p q : Pipeline} {n m : Nat} {s u : CallStage}

theorem Invocation.waits {r : Request} (h : Invocation p m r q) (hne : n ≠ m) : Waits n p q := by
  have hp : Waits n p p := .refl p
  cases h with
  | start | check | status => exact .kept (hp.addCall hne) (.requestTracker (.refl _))
  | offer | batch => exact .kept (hp.addCall hne) (.requestProducer (.refl _))
  | batchRefused | batchTooLarge | batchEmpty | finishEarly | finishLate => exact hp.reply hne
  | finishAgain => exact .reply (q := { p with shuttingDown := true }) (.silent rfl rfl) hne
  | finish =>
    exact .kept
      (.addCall (q := { p with shuttingDown := true, stopsClaimed := true }) (.silent rfl rfl) hne)
      (.requestProducer (.refl _))

/-- A call waits while another one takes a step. -/
theorem CallMove.waits (h : CallMove p m s q) (hne : n ≠ m) : Waits n p q := by
  have hp : Waits n p p := .refl p
  have hown : some m ≠ some n := by simpa using hne.symm
  cases h with
  | startedBefore | offerRefused | unsent | batchRefused | noStops | read => exact hp.reply hne
  | launching => exact hp.setCall hne
  | launchFetcher | launchEmitter => exact .setCall hp.launch hne
  | @opened c =>
    exact .reply
      (q := { p with
        abortable := p.allWorkers
        tracker := { p.tracker with startedAt := some p.now }
        started := true }) (.silent rfl rfl) hne
  | offerAccepted => exact .kept (hp.setCall hne) (.requestTracker (.refl _))
  | offerPolled => exact .afterOfferPoll (hp.polled (.poll _ _)) hne
  | offerInjected hi => exact .afterOfferPoll (.of_kept (.injected (inject?_injected hi))) hne
  | sent => exact .reply (.single rfl rfl hown) hne
  | batchAdmitted =>
    have htested : Waits n p (p.record (.tested m p.intake.free)) := .record hp (by simp)
    exact .reply (htested.trans (.single rfl rfl hown)) hne
  | batchExpired => exact .reply (.record hp (by simp)) hne
  | batchPaused => exact .setCall (.record hp (by simp)) hne
  | firstStop => exact hp.queueFetchStop hne
  | lastStop => exact .reply (.single rfl rfl (by simp)) hne
  | nextStop =>
    have hpush : Waits n p
        ({ p with intake := p.intake.push (.call m) .stop }.record (.stopQueued .fetch)) :=
      .single rfl rfl (by simp)
    exact .queueFetchStop hpush hne
  | stopStalled =>
    have hleave : Waits n p
        ({ p with intake := p.intake.leave (.call m) }.record
          (.handoffStalled (.call m) .fetchStop)) :=
      .single rfl rfl (by simp)
    exact .kept (hleave.setCall hne) (.requestTracker (.refl _))
  | stalledOut => exact .reply (hp.polled (.fail _ _)) hne
  | checked => exact .afterCheckPoll (hp.polled (.poll _ _)) hne
  | checkInjected hi => exact .afterCheckPoll (.of_kept (.injected (inject?_injected hi))) hne

theorem Polled.polling (h : Polled p q) :
    History.Adds (fun e => e.isPolling = true) p.history q.history :=
  h.history.mono fun _ => Event.isPolling_of_isTracking

theorem Injected.polling {t : Task} {i : Injection} {v : Pipeline × Verdict}
    (h : Injected p t i v) : History.Adds (fun e => e.isPolling = true) p.history v.1.history := by
  have hpush : History.Adds (fun e => e.isPolling = true) p.history
      ({ p with outtake := p.outtake.push t .stop }.record (.stopQueued .emit)).history :=
    .one rfl
  cases h with
  | last => exact hpush
  | next => exact hpush.trans (.one rfl)
  | stalled _ _ hq =>
    subst hq
    exact .trans (.one (x := ⟨p.now, .handoffStalled t .emitStop⟩) rfl) (.one rfl)

theorem Injected.intake {t : Task} {i : Injection} {v : Pipeline × Verdict}
    (h : Injected p t i v) : v.1.intake.messages = p.intake.messages := by
  cases h with
  | last | next => rfl
  | stalled _ _ hq => subst hq; rfl

/-- The answer of a call is on record together with what its step has come to before. -/
theorem adds_reply {P : Event → Prop} {a : Reply} (h : History.Adds P p.history q.history)
    (ha : P (.replied m a)) : History.Adds P p.history (q.reply m a).history :=
  h.trans (.one ha)

theorem CallMove.records (h : CallMove p m s q) :
    History.Adds (fun e => s.records m e) p.history q.history := by
  have hoffer {item : WorkItem} {wait : Wait} {v : Pipeline × Verdict}
      (hv : History.Adds (fun e => e.isPolling = true) p.history v.1.history) :
      History.Adds (fun e => e.isPolling = true ∨ ∃ err, e = .replied m (.offered (.error err)))
        p.history (afterOfferPoll m item wait v).history := by
    obtain ⟨q, v⟩ := v
    cases v with
    | failed e => exact adds_reply (hv.mono fun _ => .inl) (.inr ⟨_, rfl⟩)
    | active | injecting => exact hv.mono fun _ => .inl
  have hcheck {v : Pipeline × Verdict}
      (hv : History.Adds (fun e => e.isPolling = true) p.history v.1.history) :
      History.Adds (fun e => e.isPolling = true ∨ ∃ r, e = .replied m (.active r))
        p.history (afterCheckPoll m v).history := by
    obtain ⟨q, v⟩ := v
    cases v with
    | failed | active => exact adds_reply (hv.mono fun _ => .inl) (.inr ⟨_, rfl⟩)
    | injecting => exact hv.mono fun _ => .inl
  cases h with
  | startedBefore | offerRefused | batchRefused | read => exact .one (by simp)
  | unsent | noStops | firstStop | launchFetcher | launchEmitter | opened | stopStalled =>
    exact .one (by simp)
  | launching | offerAccepted => exact .refl _
  | offerPolled => exact hoffer (Polled.poll _ _).polling
  | offerInjected hi => exact hoffer (inject?_injected hi).polling
  | sent => exact .trans (.one (by simp)) (.one (by simp))
  | batchAdmitted hl =>
    cases hl <;> exact .trans (.one (by simp)) (.trans (.one (by simp)) (.one (by simp)))
  | batchExpired hl => cases hl <;> exact .trans (.one (by simp)) (.one (by simp))
  | batchPaused hl => cases hl <;> exact .one (by simp)
  | lastStop | nextStop => exact .trans (.one (by simp)) (.one (by simp))
  | stalledOut => exact .trans (.one (by simp)) (.one (by simp))
  | checked => exact hcheck (Polled.poll _ _).polling
  | checkInjected hi => exact hcheck (inject?_injected hi).polling

/-- A fetch worker leaves the intake queue alone or takes its oldest message. -/
theorem FetcherMove.intake {i : Nat} {w : Fetcher} (h : FetcherMove p i w q) :
    q.intake.messages = p.intake.messages ∨
      ∃ m, p.intake.messages = m :: q.intake.messages := by
  have hp : SameFlow p p := .refl p
  cases h with
  | abort | notCreated => exact .inl hp.endFetcher.intake
  | create | acquire | created | handOver => exact .inl rfl
  | @receiveStop d ms _ hm =>
    refine .inr ⟨.stop, hm.trans (congrArg _ (Eq.symm ?_))⟩
    change (endFetcher _ i w .finished).intake.messages = _
    exact (SameFlow.endFetcher (.refl _)).intake
  | receiveItem _ hm => exact .inr ⟨_, hm⟩
  | idle => exact .inl (SameFlow.tryPoll (.refl _)).intake
  | settle | handed => exact .inl (SameFlow.tryPoll (.refl _)).intake
  | lose | stalled => exact .inl (SameFlow.endFetcher (.refl _)).intake
  | injected _ hi =>
    exact .inl ((SameFlow.afterFetcherPoll (.refl _)).intake.trans (inject?_injected hi).intake)

/-- An emit worker leaves the intake queue alone. -/
theorem EmitterMove.intake {j : Nat} {w : EmitWorker} (h : EmitterMove p j w q) :
    q.intake.messages = p.intake.messages := by
  cases h <;> rfl

/-- Only a call that holds the producer lock puts messages on the intake queue. -/
theorem CallMove.intake (h : CallMove p m s q) (hx : Sections p) (hm : (m, s) ∈ p.calls)
    (hn : p.producerLock.heldBy (.call m) = false) :
    q.intake.messages = p.intake.messages := by
  have hp : SameFlow p p := .refl p
  have hno : s.holdsProducer = false := by
    cases hs : s.holdsProducer with
    | false => rfl
    | true => rw [hx.producer m s hm hs] at hn; cases hn
  cases h with
  | startedBefore | offerRefused | unsent | batchRefused | noStops | read => rfl
  | launching | offerAccepted | firstStop | opened | batchExpired | batchPaused => rfl
  | launchFetcher | launchEmitter => rfl
  | sent | offerPolled | offerInjected | lastStop | nextStop | stopStalled | stalledOut => cases hno
  | batchAdmitted hl =>
    cases hl with
    | first held => rw [held] at hn; cases hn
    | again => cases hno
  | checked => exact (SameFlow.afterCheckPoll (.of_polled (.poll _ _))).intake
  | checkInjected hi =>
    exact (SameFlow.afterCheckPoll (.refl _)).intake.trans (inject?_injected hi).intake

/-- What a step means for a pending call: it is its own step, it is given up, or it waits. Then
the intake queue only loses messages if the call holds the producer lock. -/
theorem Move.pending (hm : Move p q) (hx : Sections p) (hn : (n, s) ∈ p.calls) :
    CallMove p n s q ∨
      q = { p.release (.call n) with
            calls := p.calls.filter (·.1 ≠ n) }.record (.cancelled n) ∨
      Waits n p q ∧ (s.holdsProducer = true → q.intake.messages <:+ p.intake.messages) := by
  cases hm with
  | @invoke m r q hm hi =>
    have hne : n ≠ m := fun he => hm s (he ▸ hn)
    refine .inr (.inr ⟨?_, fun _ => ?_⟩)
    · have hinvoked : Waits n p (p.record (.invoked m r)) :=
        .record (.refl p) (by simpa using hne.symm)
      exact hinvoked.trans (hi.waits hne)
    · cases hi <;> exact List.suffix_rfl
  | @cancel m u hm hs =>
    by_cases he : m = n
    · subst he
      exact .inr (.inl rfl)
    · refine .inr (.inr ⟨?_, fun _ => List.suffix_rfl⟩)
      exact .leave (q := p) (.refl p) (Ne.symm he) rfl rfl (by simpa using he)
  | close =>
    refine .inr (.inr ⟨.of_kept (.close p), fun _ => ?_⟩)
    unfold Pipeline.close
    split <;> exact List.suffix_rfl
  | drop => exact .inr (.inr ⟨.of_kept (.drop p), fun _ => List.suffix_rfl⟩)
  | tick => exact .inr (.inr ⟨.silent rfl rfl, fun _ => List.suffix_rfl⟩)
  | @call m u q hm hc =>
    by_cases he : m = n
    · subst he
      obtain rfl := hx.unique hm hn
      exact .inl hc
    · refine .inr (.inr ⟨hc.waits (Ne.symm he), fun hs => ?_⟩)
      have hfree : p.producerLock.heldBy (.call m) = false := by
        by_contra held
        exact he (hx.producer_unique hm hn (by simpa using held) hs).1.symm
      exact hc.intake hx hm hfree ▸ List.suffix_rfl
  | fetcher hw hf =>
    refine .inr (.inr ⟨.of_kept hf.callsKept, fun _ => ?_⟩)
    rcases hf.intake with he | ⟨m, he⟩
    · exact he ▸ List.suffix_rfl
    · exact he ▸ List.suffix_cons _ _
  | emitter hw he =>
    exact .inr (.inr ⟨.of_kept he.callsKept, fun _ => he.intake ▸ List.suffix_rfl⟩)

/-- A call that is not pending is invoked or does nothing. -/
theorem Move.unpending (hm : Move p q) (hn : ∀ s, (n, s) ∉ p.calls) :
    (∃ r, Invocation (p.record (.invoked n r)) n r q) ∨ Waits n p q := by
  cases hm with
  | @invoke m r q hm hi =>
    by_cases he : m = n
    · subst he
      exact .inl ⟨r, hi⟩
    · have hinvoked : Waits n p (p.record (.invoked m r)) := .record (.refl p) (by simpa using he)
      exact .inr (hinvoked.trans (hi.waits (Ne.symm he)))
  | @cancel m s hm =>
    have hne : n ≠ m := fun he => hn s (he ▸ hm)
    exact .inr (.leave (.refl p) hne rfl rfl (by simpa using hne.symm))
  | close => exact .inr (.of_kept (.close p))
  | drop => exact .inr (.of_kept (.drop p))
  | tick => exact .inr (.silent rfl rfl)
  | @call m s q hm hc => exact .inr (hc.waits fun he => hn s (he ▸ hm))
  | fetcher hw hf => exact .inr (.of_kept hf.callsKept)
  | emitter hw he => exact .inr (.of_kept he.callsKept)

/-- A new call waits at the stage of its request, if at all. -/
theorem Invocation.stage_eq {r : Request} (h : Invocation p n r q) (hn : ∀ s, (n, s) ∉ p.calls)
    (hu : (n, u) ∈ q.calls) : u = r.firstStage := by
  cases h with
  | start | check | status | offer | batch | finish =>
    rcases mem_addCall.mp hu with hu | ⟨-, hu⟩
    · exact absurd hu (hn u)
    · exact hu
  | batchRefused | batchTooLarge | batchEmpty | finishEarly | finishLate | finishAgain =>
    exact absurd hu not_mem_reply

/-- How a pending call has come to its stage: its own step has led there, it stood there before and
has done nothing, or it has just begun. -/
theorem Move.origin (hm : Move p q) (hx : Sections p) (hu : (n, u) ∈ q.calls) :
    (∃ s, (n, s) ∈ p.calls ∧ CallMove p n s q) ∨ ((n, u) ∈ p.calls ∧ Waits n p q) ∨
      ∃ r, Invocation (p.record (.invoked n r)) n r q ∧ u = r.firstStage := by
  by_cases hp : ∃ s, (n, s) ∈ p.calls
  · obtain ⟨s, hs⟩ := hp
    rcases hm.pending hx hs with hc | rfl | ⟨hw, -⟩
    · exact .inl ⟨s, hs, hc⟩
    · simp [record] at hu
    · exact .inr (.inl ⟨(hw.calls u).mp hu, hw⟩)
  · have hn : ∀ s, (n, s) ∉ p.calls := fun s hs => hp ⟨s, hs⟩
    rcases hm.unpending hn with ⟨r, hi⟩ | hw
    · exact .inr (.inr ⟨r, hi, hi.stage_eq hn hu⟩)
    · exact absurd ((hw.calls u).mp hu) (hn u)

/-- What is on record stays there. -/
theorem Move.suffix (h : Move p q) : p.history <:+ q.history := by
  cases h with
  | @invoke m r q hm hi =>
    exact (List.suffix_cons _ _).trans (hi.idles (t := .call m)).history.suffix
  | cancel => exact List.suffix_cons _ _
  | close => exact (CallsKept.close p).history.suffix
  | drop => exact (CallsKept.drop p).history.suffix
  | tick => exact List.suffix_rfl
  | call hm hc => exact hc.records.suffix
  | fetcher hw hf => exact hf.callsKept.history.suffix
  | emitter hw he => exact he.callsKept.history.suffix

theorem Reaches.suffix (h : p.Reaches q) : p.history <:+ q.history :=
  h.invariant (I := fun r => p.history <:+ r.history) List.suffix_rfl
    fun _ _ _ ih hm => ih.trans hm.suffix

end Pipeline

end DocumentPipeline
