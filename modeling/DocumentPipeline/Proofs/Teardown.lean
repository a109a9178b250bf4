import DocumentPipeline.Proofs.Answers
import DocumentPipeline.Proofs.Escapes
import DocumentPipeline.Proofs.Failures

/-! # What still enters a pipeline that has been torn down

Once the pipeline is closed, or a failure is latched, no submission is let in. The submission that
has been let in before is not asked again. If there is room for it by then it is admitted after
all, and so it is if a fetch worker that was under way at that moment takes a message and makes
room, though all fetch workers have been asked to abort. If there is no room and none is made, it
never is admitted.
-/
namespace DocumentPipeline

/-- Whether the event admits a submission or tells its caller so. -/
@[simp] def Event.acknowledges (n : Nat) : Event → Prop
  | admitted m _ | replied m (.offered (.ok true)) => m = n
  | _ => False

/-- Whether a call at this stage may put items on the intake queue with its next step. -/
@[simp] def CallStage.delivers : CallStage → Bool
  | sending _ _ | batching _ _ | pausing _ _ _ => true
  | _ => false

theorem Event.not_acknowledges_of_isPolling {e : Event} {n : Nat} (h : e.isPolling = true) :
    ¬ e.acknowledges n := by
  cases e <;> simp_all

theorem Event.eq_of_acknowledges {m n : Nat} {r : Except PipelineError Bool}
    (h : (replied m (.offered r)).acknowledges n) : m = n := by
  cases r with
  | error e => cases h
  | ok b =>
    cases b with
    | true => exact h
    | false => cases h

theorem Event.isCalling_of_acknowledges {e : Event} {n : Nat} (h : e.acknowledges n) :
    e.isCalling = true := by
  cases e <;> first | rfl | cases h

theorem CallStage.delivers_of_acknowledges {s : CallStage} {m n : Nat} {e : Event}
    (hr : s.records m e) (he : e.acknowledges n) : m = n ∧ s.delivers = true := by
  cases s with
  | starting => rw [show e = _ from hr] at he; cases he
  | launching => rcases hr with ⟨t, rfl⟩ | rfl <;> cases he
  | offering | reading => obtain ⟨r, rfl⟩ := hr; cases he
  | finishing => rcases hr with rfl | rfl <;> cases he
  | stopping => rcases hr with rfl | rfl | rfl | rfl <;> cases he
  | stallingOut => rcases hr with ⟨ms, rfl⟩ | ⟨err, rfl⟩ <;> cases he
  | offerPolling | offerInjecting | checking | checkInjecting =>
    rcases hr with hp | ⟨r, rfl⟩
    · exact absurd he (Event.not_acknowledges_of_isPolling hp)
    · cases he
  | sending =>
    rcases hr with rfl | ⟨b, rfl⟩
    · exact ⟨he, rfl⟩
    · exact ⟨Event.eq_of_acknowledges he, rfl⟩
  | batching | pausing =>
    rcases hr with ⟨k, rfl⟩ | rfl | ⟨r, rfl⟩
    · cases he
    · exact ⟨he, rfl⟩
    · exact ⟨Event.eq_of_acknowledges he, rfl⟩

namespace Pipeline

/-- Whether a call that has been let in finds room for what it brings, when so many more slots
become free. -/
def RoomFor (p : Pipeline) (freed : Nat) : CallStage → Prop
  | .offerPolling _ _ =>
    p.tracker.failure = none ∧ p.intake.messages.length < p.settings.queueSize.toNat + freed
  | .sending _ _ => p.intake.messages.length < p.settings.queueSize.toNat + freed
  | .pausing items _ _ =>
    p.intake.messages.length + items.length ≤ p.settings.queueSize.toNat + freed
  | _ => False

/-- How many messages fetch workers have taken since this state. -/
def freed (p : Pipeline) (h : History) : Nat :=
  (h.log Event.receipt).length - (p.history.log Event.receipt).length

/-- Since this state, nobody has called under the number. -/
def Uncalled (p : Pipeline) (n : Nat) (h : History) : Prop :=
  History.Adds (fun e => ∀ r, e ≠ .invoked n r) p.history h

/-- Whoever the event admits, or tells so, is pending in this state and has not called again since.
It finds room in this state, or the slots that have been freed since are enough. -/
def Expects (p : Pipeline) (e : Event) (past : History) : Prop :=
  p.history <:+ past → ∀ n, e.acknowledges n →
    p.Uncalled n past ∧ ∃ s, (n, s) ∈ p.calls ∧ p.RoomFor (p.freed past) s

/-- Whoever the event admits, or tells so, is pending in this state and finds room. -/
def HasPlace (p : Pipeline) (e : Event) : Prop :=
  ∀ n, e.acknowledges n → ∃ s, (n, s) ∈ p.calls ∧ p.RoomFor 0 s

theorem RoomFor.admits {p : Pipeline} {k : Nat} {s : CallStage} (h : p.RoomFor k s) :
    s.admits = true := by
  cases s <;> first | rfl | cases h

theorem RoomFor.mono {p : Pipeline} {k l : Nat} {s : CallStage} (h : p.RoomFor k s)
    (hkl : k ≤ l) : p.RoomFor l s := by
  cases s with
  | offerPolling => exact ⟨h.1, Nat.lt_of_lt_of_le h.2 (Nat.add_le_add_left hkl _)⟩
  | sending => exact Nat.lt_of_lt_of_le h (Nat.add_le_add_left hkl _)
  | pausing => exact Nat.le_trans h (Nat.add_le_add_left hkl _)
  | _ => exact h.elim

/-- Who finds room found it before, but for the slots that have become free since. -/
theorem RoomFor.before {p q : Pipeline} {k l : Nat} {s : CallStage} (h : q.RoomFor k s)
    (hs : q.settings = p.settings) (hf : q.tracker.failure = none → p.tracker.failure = none)
    (hle : p.intake.messages.length ≤ q.intake.messages.length + l) : p.RoomFor (k + l) s := by
  cases s with
  | offerPolling item wait =>
    obtain ⟨hq, hlt⟩ := h
    rw [hs] at hlt
    exact ⟨hf hq, by omega⟩
  | sending item deadline =>
    change q.intake.messages.length < q.settings.queueSize.toNat + k at h
    rw [hs] at h
    change p.intake.messages.length < _
    omega
  | pausing items wake deadline =>
    change q.intake.messages.length + items.length ≤ q.settings.queueSize.toNat + k at h
    rw [hs] at h
    change p.intake.messages.length + items.length ≤ _
    omega
  | _ => exact h.elim

theorem freed_mono {p : Pipeline} {past h : History} (hs : past <:+ h) :
    p.freed past ≤ p.freed h :=
  Nat.sub_le_sub_right (History.length_log_le Event.receipt hs) _

theorem freed_add {p q : Pipeline} {h : History} (hpq : p.history <:+ q.history)
    (hqh : q.history <:+ h) : p.freed h = p.freed q.history + q.freed h := by
  have hp := History.length_log_le Event.receipt hpq
  have hq := History.length_log_le Event.receipt hqh
  unfold freed
  omega

/-- The queue has become shorter by no more than what fetch workers took off it. -/
theorem Balanced.messages_le {p q : Pipeline} (hp : Balanced p) (hq : Balanced q)
    (hs : p.history <:+ q.history) :
    p.intake.messages.length ≤ q.intake.messages.length + p.freed q.history := by
  have henqueued := History.length_log_le Event.enqueued hs
  have hreceived := History.length_log_le Event.receipt hs
  rw [hp.intake, hq.intake] at henqueued
  simp only [List.length_append, List.length_map] at henqueued
  unfold freed
  omega

/-- While the pipeline is closed nobody is let in, and when it is closed after somebody has been
let in, all fetch workers are asked to abort. -/
structure Guarded (p : Pipeline) : Prop where
  refuses : p.closed = true → p.shuttingDown = true
  opened : ∀ n s, (n, s) ∈ p.calls → s.admits = true → p.started = true
  stopped : ∀ n s, (n, s) ∈ p.calls → s.admits = true → p.closed = true →
    ∀ w ∈ p.fetchers, w.abortRequested = true
  abortable : p.started = true → ∀ i < p.fetchers.length, .fetcher i ∈ p.abortable

/-- What the guard of the pipeline is about. -/
def gate (p : Pipeline) : Bool × Bool × Bool × List Task × List Fetcher :=
  (p.started, p.shuttingDown, p.closed, p.abortable, p.fetchers)

namespace Guarded

variable {p q : Pipeline} {n : Nat} {s u : CallStage}

/-- Nobody is let in who is not let in now, and workers are only asked to abort. -/
theorem of_aborts (h : Guarded p) (ha : Aborts p q)
    (hd : p.shuttingDown = true → q.shuttingDown = true) (hs : q.started = p.started)
    (hc : ∀ n s, (n, s) ∈ q.calls → s.admits = true →
      p.refusal? = none ∨ ∃ u, (n, u) ∈ p.calls ∧ u.admits = true) : Guarded q := by
  have hstarted : ∀ n s, (n, s) ∈ q.calls → s.admits = true → p.started = true := by
    intro n s hm hadm
    rcases hc n s hm hadm with hr | ⟨u, hu, hua⟩
    · unfold refusal? at hr
      grind
    · exact h.opened n u hu hua
  have habortable : p.started = true → ∀ (i : Nat) (w : Fetcher), q.fetchers[i]? = some w →
      .fetcher i ∈ q.abortable := by
    intro hp i w hw
    obtain ⟨u, hu, -⟩ := ha.asked i w hw
    rw [ha.abortable]
    exact h.abortable hp i (List.getElem?_eq_some_iff.mp hu).1
  constructor
  · intro hq
    rcases ha.closing hq with hp | ⟨hdown, -⟩
    · exact hd (h.refuses hp)
    · exact hdown
  · intro n s hm hadm
    rw [hs]
    exact hstarted n s hm hadm
  · intro n s hm hadm hq w hw
    obtain ⟨i, hi⟩ := List.getElem?_of_mem hw
    rcases ha.closing hq with hp | ⟨-, hall⟩
    · rcases hc n s hm hadm with hr | ⟨u, hu, hua⟩
      · have hdown := h.refuses hp
        rw [Ordered.not_shuttingDown_of_refusal? hr] at hdown
        cases hdown
      · obtain ⟨v, hv, hasked⟩ := ha.asked i w hi
        exact hasked (h.stopped n u hu hua hp v (List.mem_of_getElem? hv))
    · exact hall i w hi (habortable (hstarted n s hm hadm) i w hi)
  · intro hq i hi
    exact habortable (hs ▸ hq) i q.fetchers[i] (List.getElem?_eq_getElem hi)

theorem of_kept (h : Guarded p) (hk : CallsKept p q) : Guarded q :=
  h.of_aborts hk.toAborts hk.shuttingDown hk.started fun _ s hm ha => .inr ⟨s, hk.calls ▸ hm, ha⟩

/-- Nothing happens to the guard or the workers. -/
theorem quiet (h : Guarded p) (hq : q.gate = p.gate)
    (hc : ∀ n s, (n, s) ∈ q.calls → s.admits = true →
      p.refusal? = none ∨ ∃ u, (n, u) ∈ p.calls ∧ u.admits = true) : Guarded q := by
  simp only [gate, Prod.mk.injEq] at hq
  obtain ⟨hs, hd, hclosed, hb, hf⟩ := hq
  exact h.of_aborts (.silent hb hclosed hf) (fun hp => hd.trans hp) hs hc

theorem reply {a : Reply} (h : Guarded p) : Guarded (p.reply n a) :=
  h.quiet rfl fun _ u hm hu => .inr ⟨u, (mem_reply.mp hm).2, hu⟩

theorem setCall (h : Guarded p)
    (hu : u.admits = true → p.refusal? = none ∨ ∃ s, (n, s) ∈ p.calls ∧ s.admits = true) :
    Guarded (p.setCall n u) := by
  refine h.quiet rfl fun m v hm hv => ?_
  rcases mem_setCall.mp hm with ⟨rfl, rfl, -⟩ | ⟨-, hm⟩
  · exact hu hv
  · exact .inr ⟨v, hm, hv⟩

theorem addCall (h : Guarded p) (hu : u.admits = false) : Guarded (p.addCall n u) := by
  refine h.quiet rfl fun m v hm hv => ?_
  rcases mem_addCall.mp hm with hm | ⟨rfl, rfl⟩
  · exact .inr ⟨v, hm, hv⟩
  · rw [hu] at hv; cases hv

/-- The guard, the workers and the calls stay as they are. -/
theorem silent (h : Guarded p) (hq : q.gate = p.gate) (hc : q.calls = p.calls) : Guarded q :=
  h.quiet hq fun _ s hm ha => .inr ⟨s, hc ▸ hm, ha⟩

/-- Before the start nobody is let in. -/
theorem unopened (h : Guarded p) (hp : p.started = false) (hs : q.started = false)
    (hr : q.closed = p.closed) (hd : q.shuttingDown = p.shuttingDown)
    (hc : ∀ m v, (m, v) ∈ q.calls → v.admits = true → (m, v) ∈ p.calls) : Guarded q := by
  have hnone : ∀ m v, (m, v) ∈ q.calls → v.admits = true → False := by
    intro m v hm hv
    have := h.opened m v (hc m v hm hv) hv
    rw [hp] at this
    cases this
  exact ⟨fun hq => hd.trans (h.refuses (hr.symm.trans hq)), fun m v hm hv => (hnone m v hm hv).elim,
    fun m v hm hv => (hnone m v hm hv).elim, fun hq => by rw [hs] at hq; cases hq⟩

theorem requestTracker {t : Task} (h : Guarded p) : Guarded (p.requestTracker t) := h.silent rfl rfl

theorem requestProducer {t : Task} (h : Guarded p) : Guarded (p.requestProducer t) :=
  h.silent rfl rfl

theorem invocation {r : Request} (h : Guarded p) (hi : Invocation p n r q) : Guarded q := by
  cases hi with
  | start | check | status => exact requestTracker (h.addCall rfl)
  | offer | batch => exact requestProducer (h.addCall rfl)
  | batchRefused | batchTooLarge | batchEmpty | finishEarly | finishLate => exact h.reply
  | finishAgain =>
    have hd : Guarded { p with shuttingDown := true } :=
      h.of_aborts (.silent rfl rfl rfl) (fun _ => rfl) rfl fun _ s hm ha => .inr ⟨s, hm, ha⟩
    exact hd.reply
  | finish =>
    have hd : Guarded { p with shuttingDown := true, stopsClaimed := true } :=
      h.of_aborts (.silent rfl rfl rfl) (fun _ => rfl) rfl fun _ s hm ha => .inr ⟨s, hm, ha⟩
    exact requestProducer (hd.addCall rfl)

theorem afterOfferPoll {item : WorkItem} {wait : Wait} {v : Pipeline × Verdict}
    (h : Guarded v.1) (hm : (n, s) ∈ v.1.calls) (hs : s.admits = true) :
    Guarded (afterOfferPoll n item wait v) := by
  obtain ⟨q, v⟩ := v
  cases v with
  | failed e => exact h.reply
  | injecting i => exact h.setCall fun _ => .inr ⟨s, hm, hs⟩
  | active b =>
    have hsent : Guarded (q.setCall n (.sending item (wait.timeout q.now))) :=
      h.setCall fun _ => .inr ⟨s, hm, hs⟩
    exact hsent.silent rfl rfl

theorem afterCheckPoll {v : Pipeline × Verdict} (h : Guarded v.1) :
    Guarded (afterCheckPoll n v) := by
  obtain ⟨q, v⟩ := v
  cases v with
  | failed e => exact h.reply
  | active b => exact h.reply
  | injecting i => exact h.setCall (by simp)

theorem call (h : Guarded p) (hs : Staffed p) (hm : (n, s) ∈ p.calls)
    (hc : CallMove p n s q) : Guarded q := by
  cases hc with
  | startedBefore | offerRefused | unsent | batchRefused | noStops | read => exact h.reply
  | launching => exact h.setCall (by simp)
  | launchFetcher | launchEmitter =>
    have hp := (hs.launching n _ hm).1
    refine h.unopened hp hp rfl rfl fun m v hv ha => ?_
    rcases mem_setCall.mp hv with ⟨-, rfl, -⟩ | ⟨-, hv⟩
    · cases ha
    · exact hv
  | @opened c =>
    have hp := (hs.launching n c hm).1
    have hnone : ∀ m v, (m, v) ∈ p.calls → v.admits = false := by
      intro m v hv
      cases ha : v.admits with
      | false => rfl
      | true => rw [h.opened m v hv ha] at hp; cases hp
    have hopen : Guarded { p with
        abortable := p.allWorkers
        tracker := { p.tracker with startedAt := some p.now }
        started := true } := by
      refine ⟨h.refuses, fun _ _ _ _ => rfl, fun m v hv ha => ?_, fun _ i hi => ?_⟩
      · rw [hnone m v hv] at ha; cases ha
      · simpa [allWorkers] using Nat.lt_of_lt_of_le hi hs.fetchers_le
    exact hopen.reply
  | offerAccepted held hr => exact requestTracker (h.setCall fun _ => .inl hr)
  | offerPolled =>
    have hk : CallsKept p (p.poll (.call n)).1 := .of_polled (.poll _ _)
    exact afterOfferPoll (h.of_kept hk) (by rw [hk.calls]; exact hm) rfl
  | offerInjected hi =>
    have hk := CallsKept.injected (inject?_injected hi)
    exact afterOfferPoll (h.of_kept hk) (by rw [hk.calls]; exact hm) rfl
  | sent | lastStop | batchAdmitted | batchExpired =>
    exact h.quiet rfl fun m u hm hu => .inr ⟨u, (mem_reply.mp hm).2, hu⟩
  | batchPaused hl =>
    refine setCall (h.silent rfl rfl) fun _ => ?_
    cases hl with
    | first held hr => exact .inl hr
    | again hw => exact .inr ⟨_, hm, rfl⟩
  | firstStop => exact setCall (h.silent rfl rfl) (by simp)
  | nextStop => exact setCall (h.silent rfl rfl) (by simp)
  | stopStalled => exact requestTracker (setCall (h.silent rfl rfl) (by simp))
  | stalledOut => exact reply (h.of_kept (.of_polled (.fail _ _)))
  | checked => exact afterCheckPoll (h.of_kept (.of_polled (.poll _ _)))
  | checkInjected hi => exact afterCheckPoll (h.of_kept (.injected (inject?_injected hi)))

theorem move (h : Guarded p) (hs : Staffed p) (hm : Move p q) : Guarded q := by
  cases hm with
  | invoke hn hi => exact invocation (p := p.record _) (h.silent rfl rfl) hi
  | cancel hm => exact h.quiet rfl fun m u hu ha => .inr ⟨u, (List.mem_filter.mp hu).1, ha⟩
  | close => exact h.of_kept (.close p)
  | drop => exact h.of_kept (.drop p)
  | tick => exact h.silent rfl rfl
  | call hm hc => exact h.call hs hm hc
  | fetcher hw hf => exact h.of_kept hf.callsKept
  | emitter hw he => exact h.of_kept he.callsKept

end Guarded

variable {settings : Settings} {origin : Instant} {p p₀ q : Pipeline} {n k : Nat}
  {s u : CallStage}

theorem Reaches.guarded (h : p.Reaches q) (hb : build settings origin = .built p) : Guarded q := by
  refine h.invariant ?_ fun r s hr ih hm => ih.move (hr.staffed hb) hm
  obtain ⟨-, -, rfl⟩ := build_eq_built hb
  constructor <;> simp

theorem CallMove.closed (h : CallMove p n s q) (hc : p.closed = true) : q.closed = true := by
  have hoffer {item : WorkItem} {wait : Wait} {v : Pipeline × Verdict}
      (hv : v.1.closed = true) : (afterOfferPoll n item wait v).closed = true := by
    obtain ⟨r, v⟩ := v
    cases v <;> exact hv
  have hcheck {v : Pipeline × Verdict} (hv : v.1.closed = true) :
      (afterCheckPoll n v).closed = true := by
    obtain ⟨r, v⟩ := v
    cases v <;> exact hv
  cases h with
  | offerPolled => exact hoffer ((Polled.poll _ _).closed hc)
  | offerInjected hi => exact hoffer ((CallsKept.injected (inject?_injected hi)).closed hc)
  | checked => exact hcheck ((Polled.poll _ _).closed hc)
  | checkInjected hi => exact hcheck ((CallsKept.injected (inject?_injected hi)).closed hc)
  | stalledOut => rfl
  | _ => exact hc

theorem Move.closed (h : Move p q) (hc : p.closed = true) : q.closed = true := by
  cases h with
  | invoke hn hi => cases hi <;> exact hc
  | cancel | tick => exact hc
  | close => exact (CallsKept.close p).closed hc
  | drop => rfl
  | call hm hs => exact hs.closed hc
  | fetcher hw hf => exact hf.callsKept.closed hc
  | emitter hw he => exact he.callsKept.closed hc

theorem refusal?_ne_none (h : p.shuttingDown = true) : p.refusal? ≠ none := by
  intro hr
  rw [Ordered.not_shuttingDown_of_refusal? hr] at h
  cases h

theorem PollResult.not_failed {t : Task} {b : Bool} (h : PollResult p t (q, .active b)) :
    p.tracker.failure = none := by
  generalize hx : (q, Verdict.active b) = v at h
  cases h with
  | notStarted | latched | failed => cases hx
  | injecting _ hf | noEmitters _ hf | active _ hf => exact hf

/-- A submission that finds room after its own step found room before it. -/
theorem CallMove.roomFor (h : CallMove p n s q) (hk : Handshake p) (hd : p.shuttingDown = true)
    (hm : (n, s) ∈ p.calls) (hu : (n, u) ∈ q.calls) (hroom : q.RoomFor k u) :
    p.RoomFor k s := by
  have hcheck {v : Pipeline × Verdict} (hu : (n, u) ∈ (afterCheckPoll n v).calls) :
      u.admits = false := by
    obtain ⟨r, v⟩ := v
    cases v with
    | failed | active => exact absurd hu not_mem_reply
    | injecting i => rw [stage_of_setCall hu]; rfl
  cases h with
  | startedBefore | opened | offerRefused | sent | unsent | batchRefused | batchAdmitted
  | batchExpired | noStops | lastStop | stalledOut | read => exact absurd hu not_mem_reply
  | launching | launchFetcher | launchEmitter | firstStop | nextStop | stopStalled =>
    rw [stage_of_setCall hu] at hroom
    exact hroom.elim
  | offerAccepted held hr => exact absurd hr (refusal?_ne_none hd)
  | offerInjected => exact absurd hm (hk.offer n _ _ _)
  | @offerPolled item wait =>
    have hp := Polled.poll p (.call n)
    have hv := poll_result p (.call n)
    generalize p.poll (.call n) = v at hp hv hu hroom
    obtain ⟨r, v⟩ := v
    cases v with
    | failed e => exact absurd hu not_mem_reply
    | injecting i =>
      rw [stage_of_setCall hu] at hroom
      exact hroom.elim
    | active b =>
      rw [stage_of_setCall hu] at hroom
      have hroom : r.intake.messages.length < r.settings.queueSize.toNat + k := hroom
      rw [hp.intake, hp.settings] at hroom
      exact ⟨hv.not_failed, hroom⟩
  | batchPaused hl =>
    cases hl with
    | first held hr => exact absurd hr (refusal?_ne_none hd)
    | again hw =>
      rw [stage_of_setCall hu] at hroom
      exact hroom
  | checked | checkInjected =>
    have := hroom.admits
    rw [hcheck hu] at this
    cases this

/-- Whoever is admitted by its own step found room before it. -/
theorem CallMove.acknowledged (h : CallMove p n s q) (hl : Lines p) (hd : p.shuttingDown = true) :
    History.Adds (fun e => ∀ m, e.acknowledges m → n = m ∧ p.RoomFor 0 s) p.history q.history := by
  have admitted (hroom : p.RoomFor 0 s) :
      History.Adds (fun e => ∀ m, e.acknowledges m → n = m ∧ p.RoomFor 0 s) p.history q.history :=
    h.records.mono fun e he m hm => ⟨(CallStage.delivers_of_acknowledges he hm).1, hroom⟩
  have silent (hs : s.delivers = false) :
      History.Adds (fun e => ∀ m, e.acknowledges m → n = m ∧ p.RoomFor 0 s) p.history
        q.history := by
    refine h.records.mono fun e he m hm => ?_
    have := (CallStage.delivers_of_acknowledges he hm).2
    rw [hs] at this
    cases this
  cases h with
  | sent hs => exact admitted (hl.intake.length_lt_of_hasSlot hs)
  | unsent | batchRefused => exact .one (by simp)
  | batchExpired => exact .trans (.one (by simp)) (.one (by simp))
  | batchPaused => exact .one (by simp)
  | @batchAdmitted _ items deadline hlook hf =>
    cases hlook with
    | first held hr => exact absurd hr (refusal?_ne_none hd)
    | again hw =>
      refine admitted ?_
      have hcap := hl.intake.capacity
      have hfits := hl.intake.fits
      unfold Queue.free at hf
      change p.intake.messages.length + items.length ≤ p.settings.queueSize.toNat + 0
      omega
  | _ => exact silent rfl

theorem Invocation.acknowledged {r : Request} (h : Invocation p n r q)
    (hd : p.shuttingDown = true) :
    History.Adds (fun e => ∀ m, ¬ e.acknowledges m) p.history q.history := by
  cases h with
  | start | check | status | offer | batch | finish => exact .refl _
  | batchRefused | batchTooLarge | finishEarly | finishLate | finishAgain => exact .one (by simp)
  | batchEmpty hr => exact absurd hr (refusal?_ne_none hd)

/-- Once the pipeline is closed, who is admitted by a step found room before it. -/
theorem Move.acknowledged (h : Move p q) (hl : Lines p) (hd : p.shuttingDown = true) :
    History.Adds p.HasPlace p.history q.history := by
  have kept (hk : CallsKept p q) : History.Adds p.HasPlace p.history q.history := by
    refine hk.history.mono fun e he m hm => ?_
    rw [Event.isCalling_of_acknowledges hm] at he
    cases he
  cases h with
  | @invoke n r q hn hi =>
    have hinvoked : History.Adds (fun e => ∀ m, ¬ e.acknowledges m) p.history
        (p.record (.invoked n r)).history := .one (by simp)
    exact (hinvoked.trans (hi.acknowledged hd)).mono fun e he m hm => absurd hm (he m)
  | cancel => exact .one (by simp [HasPlace])
  | close => exact kept (.close p)
  | drop => exact kept (.drop p)
  | tick => exact .refl _
  | call hm hc =>
    refine (hc.acknowledged hl hd).mono fun e he m ha => ?_
    obtain ⟨rfl, hroom⟩ := he m ha
    exact ⟨_, hm, hroom⟩
  | fetcher hw hf => exact kept hf.callsKept
  | emitter hw he => exact kept he.callsKept

/-- Once the pipeline is closed, who finds room after a step found room before it, but for the
slots that the step has freed. -/
theorem Move.roomFor (h : Move p q) (hg : Guarded p) (hx : Sections p) (hk : Handshake p)
    (hc : p.closed = true) (hf : q.tracker.failure = none → p.tracker.failure = none)
    (hle : p.intake.messages.length ≤ q.intake.messages.length + p.freed q.history)
    (hu : (n, u) ∈ q.calls) (hroom : q.RoomFor k u) :
    ∃ s, (n, s) ∈ p.calls ∧ p.RoomFor (k + p.freed q.history) s := by
  rcases h.origin hx hu with ⟨s, hm, hcall⟩ | ⟨hold, -⟩ | ⟨r, -, rfl⟩
  · exact ⟨s, hm, (hcall.roomFor hk (hg.refuses hc) hm hu hroom).mono (Nat.le_add_right _ _)⟩
  · exact ⟨u, hold, hroom.before h.settings hf hle⟩
  · cases r <;> exact hroom.elim

/-- While a call is pending nobody calls under its number. -/
theorem Move.uncalled (h : Move p q) (hx : Sections p) (hm : (n, s) ∈ p.calls) :
    p.Uncalled n q.history := by
  rcases h.pending hx hm with hc | rfl | ⟨hw, -⟩
  · refine hc.records.mono fun e he r hr => ?_
    subst hr
    cases s <;> simp at he
  · exact .one (by simp)
  · exact hw.history.mono fun e he r hr => he (by simp [hr])

/-- What is left open by a teardown. -/
structure TornDown (p q : Pipeline) : Prop where
  /-- Who is admitted after the teardown had been let in before. It found room then, or fetch
  workers have made room since. -/
  admitted : History.Each p.Expects q.history
  /-- There is one submission at most that has been let in. -/
  one : ∀ n m s u, (n, s) ∈ p.calls → s.admits = true → (m, u) ∈ p.calls → u.admits = true → n = m
  /-- If there is one, all fetch workers have been asked to abort, so that only those under way make
  room for it. -/
  asked : ∀ n s, (n, s) ∈ p.calls → s.admits = true →
    ∀ i < p.settings.numClients.toNat, p.isAsked (.fetcher i)

/-- What a run from a state in which the pipeline is closed has come to. -/
structure Aftermath (p q : Pipeline) : Prop where
  closed : q.closed = true
  suffix : p.history <:+ q.history
  admitted : History.Each p.Expects q.history
  roomFor : ∀ n s k, (n, s) ∈ q.calls → q.RoomFor k s →
    p.Uncalled n q.history ∧ ∃ u, (n, u) ∈ p.calls ∧ p.RoomFor (k + p.freed q.history) u

namespace Aftermath

variable {r : Pipeline}

theorem refl (hc : p.closed = true) : Aftermath p p where
  closed := hc
  suffix := List.suffix_rfl
  admitted := .of_forall fun x past hx hs => absurd (hx.trans hs).length_le (by simp)
  roomFor n s k hm hr := ⟨.refl _, s, hm, hr.mono (Nat.le_add_right _ _)⟩

theorem move (h : Aftermath p q) (hq : p₀.Reaches q) (hb : build settings origin = .built p₀)
    (hm : Move q r) : Aftermath p r := by
  have hguarded := hq.guarded hb
  have hx := hq.sections hb
  have hk := hq.handshake hb
  have hlatching := hq.latching hb
  have hlatching' := hlatching.move rfl hk (hq.announced hb) hx (hq.numClients_pos hb) hm
  have hbalanced := hq.balanced hb
  have hnew : ∀ n s k, (n, s) ∈ q.calls → q.RoomFor k s → p.Uncalled n r.history :=
    fun n s k hs hroom => (h.roomFor n s k hs hroom).1.trans (hm.uncalled hx hs)
  constructor
  · exact hm.closed h.closed
  · exact h.suffix.trans hm.suffix
  · have hplaced := hm.acknowledged (hq.lines hb) (hguarded.refuses h.closed)
    refine hplaced.each_between (fun e past he hpast hr hp n hn => ?_) h.admitted
    obtain ⟨s, hs, hroom⟩ := he n hn
    obtain ⟨u, hu, hur⟩ := (h.roomFor n s 0 hs hroom).2
    refine ⟨((hnew n s 0 hs hroom).split hp hr).1, u, hu, hur.mono ?_⟩
    rw [Nat.zero_add]
    exact freed_mono hpast
  · intro n u k hu hroom
    have hf : r.tracker.failure = none → q.tracker.failure = none := fun hn =>
      hlatching.kept.symm.trans (History.failure?_of_suffix hm.suffix (hlatching'.kept.trans hn))
    have hle := hbalanced.messages_le (hbalanced.move hm) hm.suffix
    obtain ⟨s, hs, hsr⟩ := hm.roomFor hguarded hx hk h.closed hf hle hu hroom
    obtain ⟨v, hv, hvr⟩ := (h.roomFor n s _ hs hsr).2
    refine ⟨hnew n s _ hs hsr, v, hv, ?_⟩
    rwa [freed_add h.suffix hm.suffix, Nat.add_comm (p.freed q.history), ← Nat.add_assoc]

end Aftermath

/-- From a state in which the pipeline is closed or a failure is latched, nothing is admitted but
the one submission that has been let in already. There must be room for it in this state, or fetch
workers that were under way make it, though all of them have been asked to abort. -/
theorem Reaches.tornDown (h : p.Reaches q) (h₀ : p₀.Reaches p)
    (hb : build settings origin = .built p₀)
    (ht : p.closed = true ∨ p.tracker.failure ≠ none) : TornDown p q := by
  have hc : p.closed = true := ht.elim id (h₀.tracked hb).latched
  have hafter : Aftermath p q :=
    h.invariant (.refl hc) fun r s hr ih hm => ih.move (h₀.trans hr) hb hm
  have hguarded := h₀.guarded hb
  refine ⟨hafter.admitted, fun n m s u hn hs hm hu => ?_, fun n s hm hs i hi => ?_⟩
  · have hx := h₀.sections hb
    have held := hx.producer n s hn (CallStage.holdsProducer_of_admits hs)
    exact (hx.producer_unique hn hm held (CallStage.holdsProducer_of_admits hu)).1.symm
  · rw [← ((h₀.staffed hb).full (hguarded.opened n s hm hs)).1] at hi
    exact ⟨p.fetchers[i], List.getElem?_eq_getElem hi,
      hguarded.stopped n s hm hs hc _ (List.getElem_mem hi)⟩

/-- An item is on the queue and an offer waits for its slot when the pipeline is closed. -/
def closedOverOffer : List Action :=
  .invoke 0 .start :: List.replicate 4 (.proceed (.call 0)) ++
    [.proceed (.fetcher 0), .clientReturns 0 (.value ()), .proceed (.fetcher 0),
      .invoke 1 (.offer default .endless), .proceed (.call 1), .proceed (.call 1),
      .proceed (.call 1), .invoke 2 (.offer default .endless), .proceed (.call 2),
      .proceed (.call 2), .close]

/-- The fetch worker was about to take the item, and the offer gets the slot. -/
def lateReceipt : List Action := [.proceed (.fetcher 0), .proceed (.call 2)]

theorem lateReceipt_tornDown :
    ∃ p₀ p q, build tight default = .built p₀ ∧ p₀.run closedOverOffer = some p ∧
      p.run lateReceipt = some q ∧ p.closed = true ∧ p.intake.free = 0 ∧
      p.freed q.history = 1 ∧ q.history.admissionsOf 2 = [[default]] ∧ TornDown p q := by
  refine ⟨_, _, _, rfl, rfl, rfl, rfl, rfl, rfl, rfl, ?_⟩
  exact Reaches.tornDown ⟨lateReceipt, rfl⟩ ⟨closedOverOffer, rfl⟩
    (show build tight default = _ from rfl) (.inl rfl)

/-- A batch of two is let in while one slot is free. The fetch worker takes the item in the other
slot, and then the pipeline is closed. -/
def closedOverBatch : List Action :=
  .invoke 0 .start :: List.replicate 4 (.proceed (.call 0)) ++
    [.proceed (.fetcher 0), .clientReturns 0 (.value ()), .proceed (.fetcher 0),
      .invoke 1 (.offer default .endless), .proceed (.call 1), .proceed (.call 1),
      .proceed (.call 1), .invoke 2 (.offerBatch [default, default] .endless),
      .proceed (.call 2), .proceed (.fetcher 0), .close]

/-- The batch looks for room again. -/
def lateLook : List Action := [.tick 100, .proceed (.call 2)]

/-- The batch is admitted after the pipeline was closed, and its caller is told so. -/
theorem lateLook_admitted :
    ∃ p₀ p q, build narrow default = .built p₀ ∧ p₀.run closedOverBatch = some p ∧
      p.run lateLook = some q ∧ p.closed = true ∧ p.history.admissionsOf 2 = [] ∧
      q.history.admissionsOf 2 = [[default, default]] ∧
      q.history =
        ⟨100, .replied 2 (.offered (.ok true))⟩ :: ⟨100, .admitted 2 [default, default]⟩ ::
          ⟨100, .tested 2 2⟩ :: p.history :=
  ⟨_, _, _, rfl, rfl, rfl, rfl, rfl, rfl, rfl⟩

end Pipeline

end DocumentPipeline
