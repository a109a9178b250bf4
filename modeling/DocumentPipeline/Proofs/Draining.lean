import DocumentPipeline.Proofs.Batches
import DocumentPipeline.Proofs.Signals

/-! # Drains that nothing disturbs

The end of the work has been announced, nothing tears the pipeline down, and whatever fails is
confined to its item. Then no worker ends but on a stop signal and no poll fails. Tasks take
turns: a turn may change who holds a lock, but leaves the drain undisturbed.
-/
namespace DocumentPipeline

/-- Whether the event disturbs a drain or ends a worker. -/
@[simp] def Event.disturbs : Event → Bool
  | closed | dropped | exited _ _ | handoffStalled _ _ => true
  | e => e.isAnnouncing

/-- Whether the event tells that an announcement has failed, other than by being refused. -/
@[simp] def Event.fails : Event → Bool
  | replied _ (.finished (.error e)) => !e.refuses
  | _ => false

theorem Event.not_fails_of_not_isCalling {e : Event} (h : e.isCalling = false) :
    e.fails = false := by
  cases e with
  | replied n a => cases h
  | _ => rfl

theorem Announcement.returned_of_not_fails {a : Announcement} {e : Event} {err : PipelineError}
    (hf : e.fails = false) (h : a.next e = .returned (.error err)) :
    a = .returned (.error err) := by
  unfold next at h
  split at h
  · cases h
  · split at h
    · cases h
    · split at h
      · cases h
      · next hr => simp [hr] at hf
  · split at h <;> cases h
  · split at h <;> cases h
  · exact h

theorem CallStage.not_fails_of_records {s : CallStage} {n : Nat} {e : Event}
    (hs : s ≠ .stallingOut) (h : s.records n e) : e.fails = false := by
  cases e with
  | replied m a =>
    cases a with
    | finished r => cases r <;> cases s <;> simp_all
    | _ => rfl
  | _ => rfl

theorem Event.isAnnouncing_of_not_disturbs {e : Event} (h : e.disturbs = false) :
    e.isAnnouncing = false := by
  cases e <;> first | exact h | rfl

theorem Event.exit_of_not_disturbs {e : Event} (h : e.disturbs = false) : e.exit = [] := by
  cases e <;> first | rfl | cases h

/-- A task takes its turn, a check is called, or time passes. -/
@[simp] def Action.isTurn : Action → Bool
  | .proceed _ | .invoke _ .checkActive | .tick _ => true
  | _ => false

/-- Whether the action is a new call. -/
@[simp] def Action.isInvocation : Action → Bool
  | .invoke _ _ => true
  | _ => false

theorem Action.ne_invoke {a : Action} (h : a.isInvocation = false) (n : Nat) (r : Request) :
    a ≠ .invoke n r := by
  rintro rfl
  cases h

theorem Event.ne_collected {e : Event} (h : e.collection = []) (t : Task) (ending : Ending) :
    e ≠ .collected t ending := by
  rintro rfl
  cases h

theorem Action.contained_of_isTurn {a : Action} (h : a.isTurn = true) : a.Contained := by
  cases a <;> trivial

/-- How often a worker has to take its turn until it waits for a message or its client. -/
@[simp] def FetchStage.toll : FetchStage → Nat
  | launched | queuing => 1
  | _ => 0

/-- How often a worker has to take its turn until it waits for a message or the emitter. -/
@[simp] def EmitStage.toll : EmitStage → Nat
  | launched => 2
  | queuing => 1
  | _ => 0

/-- How often a call has to take its turn until it waits for a slot or returns. -/
@[simp] def CallStage.toll : CallStage → Nat
  | starting | offerPolling _ _ | finishing | checking | reading => 1
  | _ => 0

namespace Pipeline

variable {p q r p₀ : Pipeline} {i j n : Nat} {t : Task} {a : Action} {s u : CallStage}
  {settings : Settings} {origin : Instant}

/-- An announcement that is answered with an error has failed. -/
theorem fails_of_returned {e : PipelineError} {h : History}
    (hr : h.announcement = .returned (.error e)) : ∃ x ∈ h, x.event.fails = true := by
  induction h with
  | nil => cases hr
  | cons x h ih =>
    cases hf : x.event.fails with
    | true => exact ⟨x, List.mem_cons_self, hf⟩
    | false =>
      obtain ⟨y, hy, hf⟩ := ih (Announcement.returned_of_not_fails hf hr)
      exact ⟨y, List.mem_cons_of_mem _ hy, hf⟩

/-- An announcement fails only by the step with which it tears the pipeline down. -/
theorem Move.stallingOut_of_fails (hm : Move p q) {x : Entry} (hx : x ∈ q.history)
    (hf : x.event.fails = true) :
    x ∈ p.history ∨ ∃ n, (n, .stallingOut) ∈ p.calls ∧ CallMove p n .stallingOut q := by
  have old {P : Event → Prop} (ha : History.Adds P p.history q.history)
      (hP : ∀ e, P e → e.fails = false) : x ∈ p.history := by
    refine (ha.mem hx).resolve_left fun h => ?_
    rw [hP _ h] at hf
    cases hf
  cases hm with
  | @invoke n r q hn hi =>
    refine .inl (old (P := fun e => e.fails = false) ?_ fun _ => id)
    have hinvoked : History.Adds (fun e => e.fails = false) p.history
        (p.record (.invoked n r)).history := .one rfl
    cases hi with
    | finishAgain => exact hinvoked.trans (.one rfl)
    | start | check | status | offer | batch | finish => exact hinvoked
    | batchRefused | batchTooLarge | batchEmpty | finishEarly | finishLate =>
      exact hinvoked.trans (.one rfl)
  | cancel | drop => exact .inl (old (P := fun e => e.fails = false) (.one rfl) fun _ => id)
  | close => exact .inl (old (CallsKept.close p).history fun _ => Event.not_fails_of_not_isCalling)
  | tick => exact .inl hx
  | @call n s q hn hc =>
    cases s with
    | stallingOut => exact .inr ⟨n, hn, hc⟩
    | _ => exact .inl (old hc.records fun e => CallStage.not_fails_of_records nofun)
  | fetcher hw hf =>
    exact .inl (old hf.callsKept.history fun _ => Event.not_fails_of_not_isCalling)
  | emitter hw he =>
    exact .inl (old he.callsKept.history fun _ => Event.not_fails_of_not_isCalling)

/-- Only a hand-off that stalls lets an announcement fail. -/
theorem Move.stall_of_fails (hm : Move p q) (hr : p₀.Reaches p)
    (hb : build settings origin = .built p₀) {x : Entry} (hx : x ∈ q.history)
    (hf : x.event.fails = true) :
    x ∈ p.history ∨ ∃ x ∈ q.history, x.event.isStall = true := by
  refine (hm.stallingOut_of_fails hx hf).imp_right fun ⟨n, hn, hc⟩ => ?_
  obtain ⟨x, hx, hs⟩ := ((hr.handoffs hb).stalled n hn).isStall
  exact ⟨x, hc.records.suffix.subset hx, hs⟩

theorem Reaches.stall_of_fails (h : p₀.Reaches p) (hb : build settings origin = .built p₀) :
    (∃ x ∈ p.history, x.event.fails = true) → ∃ x ∈ p.history, x.event.isStall = true := by
  refine h.invariant (I := fun p => (∃ x ∈ p.history, x.event.fails = true) →
    ∃ x ∈ p.history, x.event.isStall = true) ?_ fun r s hr ih hm => ?_
  · obtain ⟨-, -, rfl⟩ := build_eq_built hb
    rintro ⟨x, hx, -⟩
    cases hx
  · rintro ⟨x, hx, hf⟩
    rcases hm.stall_of_fails hr hb hx hf with hold | hstall
    · obtain ⟨y, hy, hs⟩ := ih ⟨x, hold, hf⟩
      exact ⟨y, hm.suffix.subset hy, hs⟩
    · exact hstall

/-- The end of the work has been announced, and the announcement is under way or has been
answered with success. Nothing has torn the pipeline down, and no hand-off has stalled. -/
structure Draining (p₀ p : Pipeline) : Prop where
  run : ∃ as, p₀.run as = some p ∧ ∀ a ∈ as, a.Contained
  standing : ∀ x ∈ p.history, x.event.isTeardown = false
  unstalled : ∀ x ∈ p.history, x.event.isStall = false
  announced : (∃ n, p.history.announcement = .pending n) ∨
    p.history.announcement = .returned (.ok ())

namespace Draining

/-- An announcement that has been made and was not given up is under way or has succeeded. -/
theorem of_run {as : List Action} (h : p₀.run as = some p)
    (hb : build settings origin = .built p₀) (hc : ∀ a ∈ as, a.Contained)
    (ht : ∀ x ∈ p.history, x.event.isTeardown = false)
    (hn : ∀ x ∈ p.history, x.event.isStall = false)
    (hmade : p.history.announcement ≠ .unmade) (hkept : p.history.announcement ≠ .abandoned) :
    Draining p₀ p where
  run := ⟨as, h, hc⟩
  standing := ht
  unstalled := hn
  announced := by
    cases ha : p.history.announcement with
    | unmade => exact absurd ha hmade
    | abandoned => exact absurd ha hkept
    | pending n => exact .inl ⟨n, rfl⟩
    | returned r =>
      cases r with
      | ok => exact .inr rfl
      | error e =>
        have hr : p₀.Reaches p := ⟨as, h⟩
        obtain ⟨x, hx, hs⟩ := hr.stall_of_fails hb (fails_of_returned ha)
        cases (hn x hx).symm.trans hs

theorem reaches (h : Draining p₀ p) : p₀.Reaches p :=
  let ⟨as, has, _⟩ := h.run
  ⟨as, has⟩

theorem failure (h : Draining p₀ p) (hb : build settings origin = .built p₀) :
    p.tracker.failure = none := by
  obtain ⟨as, has, hc⟩ := h.run
  exact (run_contained has hb hc h.unstalled).2

theorem not_closed (h : Draining p₀ p) (hb : build settings origin = .built p₀) :
    p.closed = false := by
  by_contra hc
  rcases (h.reaches.tracked hb).cause (by simpa using hc) with hf | ⟨x, hx, hd⟩
  · exact hf (h.failure hb)
  · cases (h.standing x hx).symm.trans hd

/-- Workers end only by finishing. -/
theorem finished {e : Ending} (h : Draining p₀ p) (hb : build settings origin = .built p₀)
    (hm : (t, e) ∈ p.history.log Event.exit) : e = .finished := by
  obtain ⟨as, has, hc⟩ := h.run
  have hfail := (run_contained has hb hc h.unstalled).1 t e hm
  cases e with
  | finished => rfl
  | failed | panicked => cases hfail
  | aborted => cases (h.not_closed hb).symm.trans ((h.reaches.tracked hb).aborted t hm)

theorem claimed (h : Draining p₀ p) (hb : build settings origin = .built p₀) :
    p.stopsClaimed = true := by
  have ha := h.reaches.announced hb
  rcases h.announced with ⟨n, hn⟩ | hr
  · rw [hn] at ha
    cases ha
    assumption
  · rw [hr] at ha
    cases ha
    assumption

theorem started (h : Draining p₀ p) (hb : build settings origin = .built p₀) :
    p.started = true := ((h.reaches.watched hb).claimed (h.claimed hb)).1

/-- No poll fails. -/
theorem not_failed {e : PipelineError} (h : Draining p₀ p)
    (hb : build settings origin = .built p₀) : ¬ PollResult p t (q, .failed e) := by
  intro hr
  generalize hv : (q, Verdict.failed e) = v at hr
  cases hr with
  | notStarted hs => cases hs.symm.trans (h.started hb)
  | latched _ hf => cases hf.symm.trans (h.failure hb)
  | failed _ _ hc =>
    obtain ⟨r, t, e, -, hm, hf, -⟩ := collectFrom_failed hc
    have hexit : (t, e) ∈ p.history.log Event.exit := by
      rw [(h.reaches.tracked hb).exits]
      exact List.mem_append_right _ hm
    rw [h.finished hb hexit] at hf
    cases hf
  | injecting | noEmitters | active => cases hv

end Draining

/-- A worker of a pool that has not ended. -/
structure Left (p : Pipeline) (role : Role) (t : Task) : Prop where
  mem : t ∈ p.pool role
  alive : ∀ e, (t, e) ∉ p.history.log Event.exit

theorem Draining.fetcher_of_left (h : Draining p₀ p) (hb : build settings origin = .built p₀)
    (hl : p.Left .fetch (.fetcher i)) :
    ∃ w : Fetcher, p.fetchers[i]? = some w ∧ w.stage ≠ .exited := by
  have hi : i < p.fetchers.length := by
    rw [((h.reaches.staffed hb).full (h.started hb)).1]
    simpa [pool] using hl.mem
  refine ⟨_, List.getElem?_eq_getElem hi, fun hs => ?_⟩
  obtain ⟨e, he⟩ := h.reaches.exit_of_exited hb (.fetcher i)
    (by simp [hasExited, fetchStage?, hi, hs])
  exact hl.alive e he

theorem Draining.emitter_of_left (h : Draining p₀ p) (hb : build settings origin = .built p₀)
    (hl : p.Left .emit (.emitter j)) :
    ∃ w : EmitWorker, p.emitters[j]? = some w ∧ w.stage ≠ .exited := by
  have hj : j < p.emitters.length := by
    rw [((h.reaches.staffed hb).full (h.started hb)).2]
    simpa [pool] using hl.mem
  refine ⟨_, List.getElem?_eq_getElem hj, fun hs => ?_⟩
  obtain ⟨e, he⟩ := h.reaches.exit_of_exited hb (.emitter j)
    (by simp [hasExited, emitStage?, hj, hs])
  exact hl.alive e he

/-- A turn does not disturb the drain, and takes no time. -/
structure Turn (p : Pipeline) (a : Action) (q : Pipeline) : Prop where
  kind : a.isTurn = true
  step : p.step a = some q
  now : q.now = p.now
  history : History.Adds (fun e => e.disturbs = false) p.history q.history

theorem Draining.turn (h : Draining p₀ p) (ht : Turn p a q) : Draining p₀ q where
  run := by
    obtain ⟨as, has, hc⟩ := h.run
    refine ⟨as ++ [a], by simp [run_append, has, ht.step], fun b hb => ?_⟩
    rcases List.mem_append.mp hb with hb | hb
    · exact hc b hb
    · rw [List.mem_singleton.mp hb]
      exact Action.contained_of_isTurn ht.kind
  standing x hx := by
    rcases ht.history.mem hx with hd | hp
    · cases hx : x.event <;> simp_all
    · exact h.standing x hp
  unstalled x hx := by
    rcases ht.history.mem hx with hd | hp
    · cases hx : x.event <;> simp_all
    · exact h.unstalled x hp
  announced := by
    have hsame : q.history.announcement = p.history.announcement :=
      ht.history.ignored fun x g hx =>
        Announcement.next_of_not_isAnnouncing (Event.isAnnouncing_of_not_disturbs hx) _
    rw [hsame]
    exact h.announced

theorem Left.turn {role : Role} (h : p.Left role t) (ht : Turn p a q) : q.Left role t where
  mem := by
    have hset := (step_move ht.step).settings
    cases role <;> simpa [pool, hset] using h.mem
  alive e := by
    rw [ht.history.log fun _ => Event.exit_of_not_disturbs]
    exact h.alive e

section Toll

/-- How many turns the tasks take, all in all, before somebody has to be waited for. -/
def toll (p : Pipeline) : Nat :=
  p.fetchTotal FetchStage.toll + p.emitTotal EmitStage.toll + p.callTotal CallStage.toll

theorem toll_of_same (h : SameStages p q) (hc : q.calls = p.calls) : q.toll = p.toll := by
  simp only [toll, h.fetchTotal, h.emitTotal, callTotal, hc]

theorem toll_setFetcher {s u : FetchStage} (h : p.fetchStage? i = some u) (hs : s.toll < u.toll) :
    (p.setFetcher i s).toll < p.toll := by
  have := fetchTotal_setFetcher (s := s) (f := FetchStage.toll) h
  have hemit : (p.setFetcher i s).emitTotal EmitStage.toll = p.emitTotal EmitStage.toll := rfl
  have hcall : (p.setFetcher i s).callTotal CallStage.toll = p.callTotal CallStage.toll := rfl
  unfold toll
  omega

theorem toll_setEmitter {s u : EmitStage} (h : p.emitStage? j = some u) (hs : s.toll < u.toll) :
    (p.setEmitter j s).toll < p.toll := by
  have := emitTotal_setEmitter (s := s) (g := EmitStage.toll) h
  have hfetch : (p.setEmitter j s).fetchTotal FetchStage.toll = p.fetchTotal FetchStage.toll := rfl
  have hcall : (p.setEmitter j s).callTotal CallStage.toll = p.callTotal CallStage.toll := rfl
  unfold toll
  omega

theorem toll_setCall (hk : (p.calls.map Prod.fst).Nodup) (hm : (n, s) ∈ p.calls)
    (hs : u.toll < s.toll) : (p.setCall n u).toll < p.toll := by
  have := callTotal_setCall (u := u) (k := CallStage.toll) hk hm
  have hfetch : (p.setCall n u).fetchTotal FetchStage.toll = p.fetchTotal FetchStage.toll := rfl
  have hemit : (p.setCall n u).emitTotal EmitStage.toll = p.emitTotal EmitStage.toll := rfl
  unfold toll
  omega

theorem toll_reply {x : Reply} (hk : (p.calls.map Prod.fst).Nodup) (hm : (n, s) ∈ p.calls)
    (hs : 0 < s.toll) : (p.reply n x).toll < p.toll := by
  have := callTotal_reply (a := x) (k := CallStage.toll) hk hm
  have hfetch : (p.reply n x).fetchTotal FetchStage.toll = p.fetchTotal FetchStage.toll := rfl
  have hemit : (p.reply n x).emitTotal EmitStage.toll = p.emitTotal EmitStage.toll := rfl
  unfold toll
  omega

end Toll

/-- The step brings the drain forward: it puts an advance on record. That an ended worker is
collected counts as an advance if a check collects it. -/
def Advances (p : Pipeline) (a : Action) (q : Pipeline) : Prop :=
  p.step a = some q ∧ (∀ n r, a ≠ .invoke n r) ∧ ∃ new, q.history = new ++ p.history ∧
    ∃ x ∈ new, x.event.advances = true ∧ ∀ t e, x.event = .collected t e →
      ∃ n, a = .proceed (.call n) ∧ p.history.requestOf n = some .checkActive

/-- Tasks can take their turns so that a step brings the drain forward, before the next look of
a batch is over, and nobody has to fail for it. -/
def CanAdvance (p : Pipeline) : Prop :=
  ∃ turns q a r, (∀ b ∈ turns, b.isTurn = true) ∧ p.run turns = some q ∧
    q.now ≤ p.now + offerPollInterval ∧ a.Contained ∧ q.Advances a r ∧
    ∀ x ∈ r.history, x.event.isStall = false

theorem CanAdvance.of_turn (h : q.CanAdvance) (ht : Turn p a q) : p.CanAdvance := by
  obtain ⟨turns, r, b, s, hk, hr, hn, hc, ha, hs⟩ := h
  refine ⟨a :: turns, r, b, s, ?_, by simp [ht.step, hr], ht.now ▸ hn, hc, ha, hs⟩
  rintro c (_ | ⟨_, hc⟩)
  · exact ht.kind
  · exact hk c hc

/-- A step with an advance on record, and no stall. -/
theorem advances_of_step {x : Entry} {past : History}
    (h : ∀ x ∈ p.history, x.event.isStall = false) (hs : p.step a = some q)
    (hi : a.isInvocation = false)
    (hp : History.Adds (fun e => e.isStall = false) p.history past)
    (hq : History.Adds (fun e => e.isStall = false) (x :: past) q.history)
    (hx : x.event.advances = true) (hcol : ∀ t e, x.event = .collected t e →
      ∃ n, a = .proceed (.call n) ∧ p.history.requestOf n = some .checkActive) :
    p.Advances a q ∧ ∀ x ∈ q.history, x.event.isStall = false := by
  have hstall : x.event.isStall = false := by
    cases hx' : x.event <;> simp_all
  constructor
  · obtain ⟨older, -, rfl⟩ := hp
    obtain ⟨newer, -, hq⟩ := hq
    exact ⟨hs, Action.ne_invoke hi, newer ++ x :: older, by simp [hq], x, by simp, hx, hcol⟩
  · intro y hy
    rcases hq.mem hy with hy | hy
    · exact hy
    · rcases List.mem_cons.mp hy with rfl | hy
      · exact hstall
      · exact (hp.mem hy).elim id fun hy => h y hy

theorem canAdvance_of_advances (ha : p.Advances a q) (hc : a.Contained)
    (hn : ∀ x ∈ q.history, x.event.isStall = false) : p.CanAdvance :=
  ⟨[], p, a, q, by simp, rfl, Nat.le_add_right _ _, hc, ha, hn⟩

/-- A step with an advance on record other than a collection. -/
theorem Draining.canAdvance {x : Entry} {past : History} (h : Draining p₀ p)
    (hs : p.step a = some q) (hi : a.isInvocation = false) (hc : a.Contained)
    (hp : History.Adds (fun e => e.isStall = false) p.history past)
    (hq : History.Adds (fun e => e.isStall = false) (x :: past) q.history)
    (hx : x.event.advances = true) (hcol : x.event.collection = []) : p.CanAdvance := by
  obtain ⟨ha, hn⟩ := advances_of_step h.unstalled hs hi hp hq hx
    fun t e he => absurd he (Event.ne_collected hcol t e)
  exact canAdvance_of_advances ha hc hn

end Pipeline

end DocumentPipeline
