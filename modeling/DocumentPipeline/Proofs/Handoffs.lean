import DocumentPipeline.Proofs.Answers
import DocumentPipeline.Proofs.Failures

/-! # How long stop signals wait

Whoever hands over a stop signal waits for a slot of its queue, and gives up when the ceiling is
reached. One task at a time hands over the signals of a pool, and nothing else enters the queue
meanwhile. So a queue that has room once keeps it: when a signal stalls, nothing has entered the
queue and nothing has left it as long as the signal waited.
-/
namespace DocumentPipeline

/-- What the stop signals of a pool are called when they are handed over. -/
def Role.cargo : Role → Cargo
  | fetch => .fetchStop
  | emit => .emitStop

namespace Event

/-- The number of messages that the event puts on the queue of a pool. -/
@[simp] def entries : Role → Event → Nat
  | .fetch, e => e.enqueued.length
  | .emit, e => e.outQueued.length

/-- The number of messages that the event takes off the queue of a pool. -/
@[simp] def departures : Role → Event → Nat
  | .fetch, e => e.receipt.length
  | .emit, e => e.taking.length

end Event

namespace CallStage

/-- Until when a call at this stage waits with a stop signal for the pool. -/
@[simp] def signalDeadline? : Role → CallStage → Option Nat
  | .fetch, stopping _ deadline => some deadline
  | .emit, checkInjecting i => some i.deadline
  | _, _ => none

/-- Whether a step from this stage may put a message on the queue of a pool. -/
@[simp] def supplies : Role → CallStage → Bool
  | .fetch, sending _ _ | .fetch, batching _ _ | .fetch, pausing _ _ _
  | .fetch, stopping _ _ => true
  | .emit, offerPolling _ _ | .emit, offerInjecting _ _ _ | .emit, checking
  | .emit, checkInjecting _ => true
  | _, _ => false

theorem entries_of_records {role : Role} {s : CallStage} {n : Nat} {e : Event}
    (hs : s.supplies role = false) (h : s.records n e) : e.entries role = 0 := by
  cases role <;> cases s <;> simp_all <;> grind [Event.enqueued, Event.outQueued]

end CallStage

namespace History

/-- A task began to wait with a stop signal for the pool, and since then nothing has entered the
queue. If the queue is full now, nothing has left it either. -/
def Waiting (role : Role) (t : Task) (began : Nat) (full : Prop) (h : History) : Prop :=
  ∃ since past, h = since ++ ⟨began, .handoffBegan t role.cargo⟩ :: past ∧
    (∀ x ∈ since, x.event.entries role = 0) ∧
    (full → ∀ x ∈ since, x.event.departures role = 0)

/-- A stop signal for the pool gave up at the ceiling. As long as it waited, the queue was full:
nothing entered it and nothing left it. -/
def GaveUp (role : Role) (ceiling : Nat) (h : History) : Prop :=
  ∃ (later past : History) (t : Task) (began ended : Nat),
    h = later ++ ⟨ended, .handoffStalled t role.cargo⟩ :: past ∧
      past.Waiting role t began True ∧ began + ceiling ≤ ended

variable {role : Role} {t : Task} {began ceiling : Nat} {full full' : Prop} {h past : History}

theorem Waiting.of_adds (hw : past.Waiting role t began full)
    (ha : Adds (fun e => e.entries role = 0) past h)
    (hd : full' → full ∧ Adds (fun e => e.departures role = 0) past h) :
    h.Waiting role t began full' := by
  obtain ⟨since, older, rfl, hs, hf⟩ := hw
  obtain ⟨new, hn, rfl⟩ := ha
  refine ⟨new ++ since, older, by simp, fun x hx => ?_, fun hfull x hx => ?_⟩
  · exact (List.mem_append.mp hx).elim (hn x) (hs x)
  · obtain ⟨hbefore, new', hn', hh⟩ := hd hfull
    obtain rfl := List.append_cancel_right hh
    exact (List.mem_append.mp hx).elim (hn' x) (hf hbefore x)

theorem GaveUp.of_suffix (hg : past.GaveUp role ceiling) (hs : past <:+ h) :
    h.GaveUp role ceiling := by
  obtain ⟨later, older, t, began, ended, rfl, hw, hc⟩ := hg
  obtain ⟨new, rfl⟩ := hs
  exact ⟨new ++ later, older, t, began, ended, by simp, hw, hc⟩

theorem Waiting.gaveUp {ended : Nat} (hw : h.Waiting role t began full) (hf : full)
    (hc : began + ceiling ≤ ended) :
    GaveUp role ceiling (⟨ended, .handoffStalled t role.cargo⟩ :: h) := by
  obtain ⟨since, older, hh, hs, hd⟩ := hw
  exact ⟨[], h, t, began, ended, rfl, ⟨since, older, hh, hs, fun _ => hd hf⟩, hc⟩

/-- A log that has not grown has no share in what was added. -/
theorem adds_of_log {α : Type} {f : Event → List α} (hs : past <:+ h)
    (hl : (h.log f).length ≤ (past.log f).length) : Adds (fun e => (f e).length = 0) past h := by
  obtain ⟨new, rfl⟩ := hs
  refine ⟨new, fun x hx => ?_, rfl⟩
  have hnew : (log f new).length = 0 := by
    have : log f (new ++ past) = log f past ++ log f new := by simp [log]
    rw [this, List.length_append] at hl
    omega
  rw [List.length_eq_zero_iff] at hnew
  refine List.length_eq_zero_iff.mpr ?_
  by_contra hne
  obtain ⟨a, ha⟩ := List.exists_mem_of_ne_nil _ hne
  have : a ∈ log f new := mem_log.mpr ⟨x, hx, ha⟩
  rw [hnew] at this
  cases this

end History

namespace Pipeline

variable {p q p₀ : Pipeline} {n m i : Nat} {s u : CallStage} {role : Role}
  {settings : Settings} {origin : Instant}

/-- Whether every slot of the queue of a pool is filled. -/
def IsFull (p : Pipeline) : Role → Prop
  | .fetch => p.settings.queueSize.toNat ≤ p.intake.messages.length
  | .emit => emitQueueSize ≤ p.outtake.messages.length

/-- With its invocation, a call is answered or begins to wait. -/
theorem Invocation.records {r : Request} (h : Invocation p n r q) :
    History.Adds (fun e => ∃ a, e = .replied n a) p.history q.history := by
  cases h with
  | start | check | status | offer | batch | finish => exact .refl _
  | batchRefused | batchTooLarge | batchEmpty | finishEarly | finishLate | finishAgain =>
    exact .one ⟨_, rfl⟩

/-- What holds of the invocation and of every answer holds of all that is put on record. -/
theorem Invocation.adds {r : Request} {P : Event → Prop}
    (h : Invocation (p.record (.invoked n r)) n r q) (hr : P (.invoked n r))
    (ha : ∀ a, P (.replied n a)) : History.Adds P p.history q.history := by
  have hinvoked : History.Adds P p.history (p.record (.invoked n r)).history := .one hr
  refine hinvoked.trans (h.records.mono ?_)
  rintro e ⟨a, rfl⟩
  exact ha a

/-- An emit worker records its own work only. -/
theorem EmitterMove.records {j : Nat} {w : EmitWorker} (h : EmitterMove p j w q) :
    History.Adds (fun e => e.worker? = some (.emitter j)) p.history q.history := by
  cases h with
  | abort => exact .one rfl
  | queue | acquire => exact .refl _
  | takeStop | takePayload | failed => exact .trans (.one rfl) (.one rfl)
  | delivered => exact .one rfl

theorem FetcherMove.not_exited {w : Fetcher} (h : FetcherMove p i w q) : w.stage ≠ .exited := by
  cases h <;> simp_all

/-- Only under the producer lock does a call put messages on the intake queue. -/
theorem CallMove.holds_producer (h : CallMove p m u q) (hx : Sections p) (hm : (m, u) ∈ p.calls)
    (hs : u.supplies .fetch = true) : p.producerLock.heldBy (.call m) = true := by
  cases h with
  | sent | lastStop | nextStop | unsent | stopStalled => exact hx.producer m _ hm rfl
  | batchRefused held => exact held
  | batchAdmitted hl | batchExpired hl | batchPaused hl =>
    cases hl with
    | first held => exact held
    | again => exact hx.producer m _ hm rfl
  | _ => cases hs

/-- Only under the tracker's lock does a call put messages on the outtake queue. -/
theorem CallMove.holds_tracker (h : CallMove p m u q) (hx : Sections p) (hm : (m, u) ∈ p.calls)
    (hs : u.supplies .emit = true) : p.trackerLock.heldBy (.call m) = true := by
  cases h with
  | offerPolled held | checked held => exact held
  | offerInjected | checkInjected => exact hx.tracker m _ hm rfl
  | batchAdmitted hl | batchExpired hl | batchPaused hl => cases hl <;> cases hs
  | _ => cases hs

/-- While a call waits with a stop signal, no other call puts anything on the queue. -/
theorem CallMove.no_entries {d : Nat} (h : CallMove p m u q) (hx : Sections p)
    (hm : (m, u) ∈ p.calls) (hn : (n, s) ∈ p.calls) (hs : s.signalDeadline? role = some d)
    (hne : m ≠ n) : History.Adds (fun e => e.entries role = 0) p.history q.history := by
  have hidle : u.supplies role = false := by
    by_contra hu
    have hu : u.supplies role = true := by simpa using hu
    cases role with
    | fetch =>
      have hh : s.holdsProducer = true := by cases s <;> simp_all
      exact hne (hx.producer_unique hm hn (h.holds_producer hx hm hu) hh).1.symm
    | emit =>
      have hh : s.holdsTracker = true := by cases s <;> simp_all
      exact hne (hx.tracker_unique hm hn (h.holds_tracker hx hm hu) hh).1.symm
  exact h.records.mono fun e he => CallStage.entries_of_records hidle he

/-- Once signals are injected, every fetch worker has come to its end. -/
theorem Handshake.fetcher_exited {w : Fetcher} {j : Injection} (h : Handshake p) (ht : Tracked p)
    (hs : Staffed p) (hn : (n, .checkInjecting j) ∈ p.calls) (hw : p.fetchers[i]? = some w) :
    w.stage = .exited := by
  have hlen : i < p.settings.numClients.toNat :=
    Nat.lt_of_lt_of_le (List.getElem?_eq_some_iff.mp hw).1 hs.fetchers_le
  have hin := (h.check n j hn).2.2.2 i hlen
  have hgone : p.fetchStage? i = some .exited := ht.gone _ _ (ht.mem_exit_of_collection hin)
  rw [fetchStage?, hw] at hgone
  exact Option.some.inj hgone

/-- While a call waits with a stop signal, nothing enters the queue. -/
theorem Move.no_entries {d : Nat} (hm : Move p q) (hr : p₀.Reaches p)
    (hb : build settings origin = .built p₀) (hn : (n, s) ∈ p.calls)
    (hs : s.signalDeadline? role = some d) :
    CallMove p n s q ∨ History.Adds (fun e => e.entries role = 0) p.history q.history := by
  have hx := hr.sections hb
  have kept {r : Pipeline} (hk : CallsKept p r) :
      History.Adds (fun e => e.entries .fetch = 0) p.history r.history :=
    hk.history.mono fun e he => by cases e with
      | stopQueued r => cases r <;> simp_all
      | _ => simp_all
  cases hm with
  | @invoke m r q hm hi =>
    exact .inr (hi.adds (by cases role <;> rfl) fun _ => by cases role <;> rfl)
  | cancel => exact .inr (.one (by cases role <;> rfl))
  | close =>
    refine .inr ?_
    unfold Pipeline.close
    split <;> exact .one (by cases role <;> rfl)
  | drop => exact .inr (.one (by cases role <;> rfl))
  | tick => exact .inr (.refl _)
  | @call m u q hm hc =>
    by_cases he : m = n
    · subst he
      obtain rfl := hx.unique hm hn
      exact .inl hc
    · exact .inr (hc.no_entries hx hm hn hs he)
  | fetcher hw hf =>
    cases role with
    | fetch => exact .inr (kept hf.callsKept)
    | emit =>
      cases s with
      | checkInjecting j =>
        exact absurd ((hr.handshake hb).fetcher_exited (hr.tracked hb) (hr.staffed hb) hn hw)
          hf.not_exited
      | _ => cases hs
  | emitter hw he =>
    cases role with
    | fetch => exact .inr (kept he.callsKept)
    | emit =>
      refine .inr (he.records.mono fun e hw => ?_)
      cases e <;> simp_all

/-- When nothing has entered a queue that is full, nothing has left it, and it was full before. -/
theorem no_departures (hp : Balanced p) (hq : Balanced q) (hl : Lines p)
    (hset : q.settings = p.settings)
    (ha : History.Adds (fun e => e.entries role = 0) p.history q.history) (hf : q.IsFull role) :
    p.IsFull role ∧ History.Adds (fun e => e.departures role = 0) p.history q.history := by
  -- what has entered a queue has left it or is still there, and the queue was no fuller than full
  cases role with
  | fetch =>
    have he := congrArg List.length
      (ha.log (f := Event.enqueued) fun e he => List.length_eq_zero_iff.mp he)
    rw [hp.intake, hq.intake, List.length_append, List.length_append, List.length_map,
      List.length_map] at he
    have hfits := hl.intake.fits
    have hgrown := (History.log_prefix_of_suffix Event.receipt ha.suffix).length_le
    unfold IsFull at hf ⊢
    rw [hset] at hf
    exact ⟨by omega, History.adds_of_log ha.suffix (by omega)⟩
  | emit =>
    have he := congrArg List.length
      (ha.log (f := Event.outQueued) fun e he => List.length_eq_zero_iff.mp he)
    rw [hp.outtake, hq.outtake, List.length_append, List.length_append, List.length_map,
      List.length_map] at he
    have hfits := hl.outtake.fits
    have hgrown := (History.log_prefix_of_suffix Event.taking ha.suffix).length_le
    unfold IsFull at hf ⊢
    exact ⟨by omega, History.adds_of_log ha.suffix (by omega)⟩

/-- A poll that comes to an injection begins to wait with a stop signal. -/
theorem PollResult.begins {t : Task} {i : Injection} (h : PollResult p t (q, .injecting i)) :
    i.deadline = q.now + q.ceiling ∧
      ∃ past, q.history = ⟨q.now, .handoffBegan t .emitStop⟩ :: past := by
  generalize hv : (q, Verdict.injecting i) = v at h
  cases h with
  | injecting => cases hv; exact ⟨rfl, _, rfl⟩
  | notStarted | latched | failed | noEmitters | active => cases hv

theorem Injected.begins {t : Task} {i j : Injection} (h : Injected p t j (q, .injecting i)) :
    i.deadline = q.now + q.ceiling ∧
      ∃ past, q.history = ⟨q.now, .handoffBegan t .emitStop⟩ :: past := by
  generalize hv : (q, Verdict.injecting i) = v at h
  cases h with
  | next => cases hv; exact ⟨rfl, _, rfl⟩
  | last | stalled => cases hv

/-- A call that comes to wait with a stop signal by its own step begins its wait. -/
theorem CallMove.begins_signal {d : Nat} (h : CallMove p n s q) (hu : (n, u) ∈ q.calls)
    (hd : u.signalDeadline? role = some d) : d = q.now + q.ceiling ∧
      ∃ past, q.history = ⟨q.now, .handoffBegan (.call n) role.cargo⟩ :: past := by
  have hcheck {v : Pipeline × Verdict}
      (hv : ∀ i, v.2 = .injecting i → i.deadline = v.1.now + v.1.ceiling ∧
        ∃ past, v.1.history = ⟨v.1.now, .handoffBegan (.call n) .emitStop⟩ :: past)
      (hu : (n, u) ∈ (afterCheckPoll n v).calls) :
      d = (afterCheckPoll n v).now + (afterCheckPoll n v).ceiling ∧
        ∃ past, (afterCheckPoll n v).history =
          ⟨(afterCheckPoll n v).now, .handoffBegan (.call n) role.cargo⟩ :: past := by
    obtain ⟨r, v⟩ := v
    cases v with
    | failed | active => exact absurd hu not_mem_reply
    | injecting i =>
      obtain rfl := stage_of_setCall hu
      cases role with
      | fetch => cases hd
      | emit => cases hd; exact hv i rfl
  have hoffer {item : WorkItem} {wait : Wait} {v : Pipeline × Verdict}
      (hu : (n, u) ∈ (afterOfferPoll n item wait v).calls) : False := by
    obtain ⟨r, v⟩ := v
    cases v with
    | failed => exact not_mem_reply hu
    | active | injecting => obtain rfl := stage_of_setCall hu; cases role <;> cases hd
  have hstop {r : Pipeline} {k : Nat} (hu : (n, u) ∈ (r.queueFetchStop n k).calls) :
      d = r.now + r.ceiling ∧ Role.fetch = role := by
    obtain rfl := stage_of_setCall hu
    cases role with
    | fetch => cases hd; exact ⟨rfl, rfl⟩
    | emit => cases hd
  cases h with
  | startedBefore | opened | offerRefused | sent | unsent | batchRefused | batchAdmitted
  | batchExpired | noStops | lastStop | stalledOut | read => exact absurd hu not_mem_reply
  | launching | offerAccepted | launchFetcher | launchEmitter | batchPaused | stopStalled =>
    obtain rfl := stage_of_setCall hu
    cases role <;> cases hd
  | offerPolled => exact (hoffer hu).elim
  | offerInjected => exact (hoffer hu).elim
  | firstStop =>
    obtain ⟨rfl, rfl⟩ := hstop hu
    exact ⟨rfl, _, rfl⟩
  | nextStop =>
    obtain ⟨rfl, rfl⟩ := hstop hu
    exact ⟨rfl, _, rfl⟩
  | checked =>
    refine hcheck (fun i hi => ?_) hu
    have hr := poll_result p (.call n)
    generalize p.poll (.call n) = v at hr hi
    obtain ⟨r, v⟩ := v
    cases hi
    exact hr.begins
  | @checkInjected j v hi =>
    refine hcheck (fun i hv => ?_) hu
    obtain ⟨r, v⟩ := v
    cases hv
    exact (inject?_injected hi).begins

/-- An announcement that stalls has found no slot at its deadline. -/
theorem CallMove.stalls (h : CallMove p n s q) (hq : (n, .stallingOut) ∈ q.calls) :
    ∃ left d, s = .stopping left d ∧ p.intake.hasSlot (.call n) = false ∧ d ≤ p.now ∧
      q.history = ⟨p.now, .handoffStalled (.call n) .fetchStop⟩ :: p.history := by
  cases h with
  | stopStalled hs hd => exact ⟨_, _, rfl, hs, hd, rfl⟩
  | startedBefore | opened | offerRefused | sent | unsent | batchRefused | batchAdmitted
  | batchExpired | noStops | lastStop | stalledOut | read => exact absurd hq not_mem_reply
  | launching | offerAccepted | launchFetcher | launchEmitter | batchPaused | firstStop
  | nextStop => cases stage_of_setCall hq
  | offerPolled | offerInjected =>
    revert hq
    generalize hv : afterOfferPoll _ _ _ _ = r
    unfold afterOfferPoll at hv
    split at hv <;> subst hv <;> intro hq
    · exact absurd hq not_mem_reply
    · cases stage_of_setCall hq
    · cases stage_of_setCall hq
  | checked | checkInjected =>
    revert hq
    generalize hv : afterCheckPoll _ _ = r
    unfold afterCheckPoll at hv
    split at hv <;> subst hv <;> intro hq
    · exact absurd hq not_mem_reply
    · exact absurd hq not_mem_reply
    · cases stage_of_setCall hq

/-- Whoever stands alone in line and has no slot has found the queue full. -/
theorem full_of_no_slot {α : Type} {queue : Queue α} {t : Task} (hs : queue.senders = [t])
    (hn : queue.hasSlot t = false) : queue.capacity ≤ queue.messages.length := by
  rw [Queue.hasSlot, hs] at hn
  simpa using hn

/-- While a check injects, nobody else stands in line at the outtake queue. -/
theorem Lines.outtake_senders_eq {i : Injection} (h : Lines p) (hx : Sections p)
    (hk : Handshake p) (ht : Tracked p) (hs : Staffed p)
    (hm : (n, .checkInjecting i) ∈ p.calls) : p.outtake.senders = [.call n] := by
  refine List.perm_singleton.mp
    ((List.perm_ext_iff_of_nodup h.outtake.nodup (List.nodup_singleton _)).mpr fun t => ?_)
  rw [h.outtake.mem_iff, List.mem_singleton]
  refine ⟨fun hw => ?_, ?_⟩
  · cases t with
    | call m =>
      obtain ⟨u, hu, hi⟩ := hw
      have held := hx.tracker n _ hm rfl
      rw [(hx.tracker_unique hm hu held (CallStage.holdsTracker_of_isInjecting hi)).1]
    | fetcher k =>
      obtain ⟨w, hw, hover⟩ := hw
      obtain ⟨v, hv, rfl⟩ := Option.map_eq_some_iff.mp hw
      rw [hk.fetcher_exited ht hs hm hv] at hover
      cases hover
    | emitter j => exact hw.elim
  · rintro rfl
    exact ⟨_, hm, rfl⟩

/-- Whoever waits with a stop signal has waited as long as it says, and whoever gave up has
waited to the ceiling. -/
structure Handoffs (p : Pipeline) : Prop where
  waiting : ∀ role n s d, (n, s) ∈ p.calls → s.signalDeadline? role = some d →
    ∃ began, d = began + p.ceiling ∧ p.history.Waiting role (.call n) began (p.IsFull role)
  stalled : ∀ n, (n, .stallingOut) ∈ p.calls → p.history.GaveUp .fetch p.ceiling

namespace Handoffs

/-- A fetch stop signal that finds no slot at its deadline has waited to the ceiling. -/
theorem gaveUp_fetch {left d : Nat} (h : Handoffs p) (hl : Lines p) (hx : Sections p)
    (hm : (n, .stopping left d) ∈ p.calls) (hs : p.intake.hasSlot (.call n) = false)
    (hd : d ≤ p.now) :
    History.GaveUp .fetch p.ceiling
      (⟨p.now, .handoffStalled (.call n) .fetchStop⟩ :: p.history) := by
  obtain ⟨began, rfl, hw⟩ := h.waiting .fetch n _ d hm rfl
  refine hw.gaveUp ?_ hd
  exact Nat.le_trans (Nat.le_of_eq hl.intake.capacity.symm)
    (full_of_no_slot (hl.senders_eq hx hm rfl) hs)

/-- An emit stop signal that finds no slot at its deadline has waited to the ceiling. -/
theorem gaveUp_emit {i : Injection} (h : Handoffs p) (hr : p₀.Reaches p)
    (hb : build settings origin = .built p₀) (hm : (n, .checkInjecting i) ∈ p.calls)
    (hs : p.outtake.hasSlot (.call n) = false) (hd : i.deadline ≤ p.now) :
    History.GaveUp .emit p.ceiling
      (⟨p.now, .handoffStalled (.call n) .emitStop⟩ :: p.history) := by
  obtain ⟨began, hdeadline, hw⟩ := h.waiting .emit n _ i.deadline hm rfl
  have hl := hr.lines hb
  have halone := hl.outtake_senders_eq (hr.sections hb) (hr.handshake hb) (hr.tracked hb)
    (hr.staffed hb) hm
  refine hw.gaveUp ?_ (hdeadline ▸ hd)
  exact Nat.le_trans (Nat.le_of_eq hl.outtake.capacity.symm) (full_of_no_slot halone hs)

theorem move (h : Handoffs p) (hr : p₀.Reaches p) (hb : build settings origin = .built p₀)
    (hm : Move p q) (hq : Balanced q) : Handoffs q where
  waiting role n u d hu hd := by
    have began (hc : ∃ s, CallMove p n s q) : ∃ began, d = began + q.ceiling ∧
        q.history.Waiting role (.call n) began (q.IsFull role) := by
      obtain ⟨s, hc⟩ := hc
      obtain ⟨hd, past, hh⟩ := hc.begins_signal hu hd
      exact ⟨q.now, hd, [], past, hh, by simp, by simp⟩
    have waits (hu : (n, u) ∈ p.calls) : ∃ began, d = began + q.ceiling ∧
        q.history.Waiting role (.call n) began (q.IsFull role) := by
      rcases hm.no_entries hr hb hu hd with hc | ha
      · exact began ⟨u, hc⟩
      · obtain ⟨start, hstart, hw⟩ := h.waiting role n u d hu hd
        refine ⟨start, by rw [ceiling, hm.settings]; exact hstart, hw.of_adds ha fun hf => ?_⟩
        exact no_departures (hr.balanced hb) hq (hr.lines hb) hm.settings ha hf
    rcases hm.origin (hr.sections hb) hu with ⟨s, -, hc⟩ | ⟨hold, -⟩ | ⟨r, -, rfl⟩
    · exact began ⟨s, hc⟩
    · exact waits hold
    · cases r <;> cases role <;> cases hd
  stalled n hn := by
    have hceiling : q.ceiling = p.ceiling := by rw [ceiling, hm.settings, ceiling]
    rcases hm.origin (hr.sections hb) hn with ⟨s, hs, hc⟩ | ⟨hold, -⟩ | ⟨r, -, hstage⟩
    · obtain ⟨left, d, rfl, hslot, hd, hh⟩ := hc.stalls hn
      rw [hceiling, hh]
      exact h.gaveUp_fetch (hr.lines hb) (hr.sections hb) hs hslot hd
    · exact hceiling ▸ (h.stalled n hold).of_suffix hm.suffix
    · cases r <;> cases hstage

end Handoffs

theorem handoffs_of_build (hb : build settings origin = .built p) : Handoffs p := by
  obtain ⟨-, -, rfl⟩ := build_eq_built hb
  constructor <;> simp

theorem Reaches.handoffs (h : p₀.Reaches p) (hb : build settings origin = .built p₀) :
    Handoffs p :=
  h.invariant (handoffs_of_build hb) fun _ _ hr ih hm =>
    ih.move hr hb hm ((hr.balanced hb).move hm)

end Pipeline

end DocumentPipeline
