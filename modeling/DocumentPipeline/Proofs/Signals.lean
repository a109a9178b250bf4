import DocumentPipeline.Proofs.Causes
import DocumentPipeline.Proofs.LockLines
import DocumentPipeline.Proofs.Workload

/-! # Signals and the workers they end

Each stop signal that comes out of a queue ends one worker, and a worker ends on a signal or
because something went wrong. As long as nothing goes wrong, a queue that was given a signal for
each of its workers holds one for each worker that is left.
-/
namespace DocumentPipeline

/-- Whether the event is the receipt of a stop signal, or the end of a worker that finished. -/
@[simp] def Event.signals : Event → Bool
  | received _ .stop | taken _ .stop | exited _ .finished => true
  | _ => false

namespace History

/-- The stop signals that the workers of a pool have received. -/
def stopsTaken : Role → History → Nat
  | .fetch, h => ((h.log Event.receipt).map Prod.snd).count .stop
  | .emit, h => ((h.log Event.taking).map Prod.snd).count .stop

/-- The workers of a pool that have finished. -/
def finishersOf (role : Role) (h : History) : List Task := finishers role (h.log Event.exit)

theorem stopsTaken_cons (role : Role) {x : Entry} {h : History} (hx : x.event.signals = false) :
    stopsTaken role (x :: h) = h.stopsTaken role := by
  obtain ⟨time, e⟩ := x
  cases role with
  | fetch =>
    cases e with
    | received i m => cases m <;> simp_all [stopsTaken]
    | _ => simp [stopsTaken]
  | emit =>
    cases e with
    | taken j m => cases m <;> simp_all [stopsTaken]
    | _ => simp [stopsTaken]

theorem finishersOf_cons (role : Role) {x : Entry} {h : History} (hx : x.event.signals = false) :
    finishersOf role (x :: h) = h.finishersOf role := by
  obtain ⟨time, e⟩ := x
  cases e with
  | exited t ending => cases ending <;> simp_all [finishersOf, finishers]
  | _ => simp [finishersOf]

/-- Every signal received has ended the worker that received it. -/
def Heeded (h : History) : Prop := ∀ role, h.stopsTaken role = (h.finishersOf role).length

theorem Heeded.of_adds {past h : History} (hp : past.Heeded)
    (ha : Adds (fun e => e.signals = false) past h) : h.Heeded := by
  intro role
  rw [ha.ignored (F := fun h => stopsTaken role h) fun x g hx => stopsTaken_cons role hx,
    ha.ignored (F := fun h => finishersOf role h) fun x g hx => finishersOf_cons role hx]
  exact hp role

end History

namespace Pipeline

variable {p q p₀ : Pipeline} {i j n : Nat} {t : Task} {settings : Settings} {origin : Instant}

theorem Event.not_signals_of_isTracking {e : Event} (h : e.isTracking = true) :
    e.signals = false := by
  cases e <;> simp_all

theorem CallStage.signals_of_records {s : CallStage} {e : Event} (h : s.records n e) :
    e.signals = false := by
  cases e with
  | received i m => cases s <;> simp_all
  | taken j m => cases s <;> simp_all
  | exited t ending => cases s <;> simp_all
  | _ => rfl

/-- What a fetch worker records when it ends. -/
theorem adds_endFetcher {P : Event → Prop} {w : Fetcher} {e : Ending}
    (hr : P (.clientReleased i)) (he : P (.exited (.fetcher i) e)) :
    History.Adds P p.history (p.endFetcher i w e).history := by
  unfold endFetcher
  dsimp only
  split
  · exact .trans (.one (x := ⟨p.now, .clientReleased i⟩) hr)
      (.one (x := ⟨p.now, .exited (.fetcher i) e⟩) he)
  · exact .one (x := ⟨p.now, .exited (.fetcher i) e⟩) he

/-- What a fetch worker records when it looks around: what a poll does, and that it ends if the
poll fails. -/
theorem adds_tryPoll {P : Event → Prop} {w : Fetcher} (hp : ∀ e : Event, e.isTracking = true → P e)
    (hr : P (.clientReleased i)) (he : ∀ err, P (.exited (.fetcher i) (.failed err))) :
    History.Adds P p.history (p.tryPoll i w).history := by
  unfold tryPoll
  dsimp only
  split
  · have hpoll := (Polled.poll (p.requestTracker (.fetcher i)) (.fetcher i)).history.mono hp
    generalize (p.requestTracker (.fetcher i)).poll (.fetcher i) = v at hpoll ⊢
    obtain ⟨r, v⟩ := v
    cases v with
    | failed e => exact hpoll.trans (adds_endFetcher hr (he e))
    | active b | injecting k => exact hpoll
  · exact .refl _

theorem unsignalled_endFetcher {w : Fetcher} {e : Ending} (he : e ≠ .finished) :
    History.Adds (fun e => e.signals = false) p.history (p.endFetcher i w e).history :=
  adds_endFetcher rfl (by cases e <;> simp_all)

theorem unsignalled_tryPoll {w : Fetcher} :
    History.Adds (fun e => e.signals = false) p.history (p.tryPoll i w).history :=
  adds_tryPoll (fun _ => Event.not_signals_of_isTracking) rfl fun _ => rfl

theorem Event.not_isStall_of_isTracking {e : Event} (h : e.isTracking = true) :
    e.isStall = false := by
  cases e <;> simp_all

theorem unstalled_endFetcher {w : Fetcher} {e : Ending} :
    History.Adds (fun e => e.isStall = false) p.history (p.endFetcher i w e).history :=
  adds_endFetcher rfl rfl

theorem unstalled_tryPoll {w : Fetcher} :
    History.Adds (fun e => e.isStall = false) p.history (p.tryPoll i w).history :=
  adds_tryPoll (fun _ => Event.not_isStall_of_isTracking) rfl fun _ => rfl

/-- A fetch worker leaves signals alone, or takes one and finishes. -/
theorem FetcherMove.signals {w : Fetcher} (h : FetcherMove p i w q)
    (hn : ∀ k, w.stage ≠ .injecting k) :
    History.Adds (fun e => e.signals = false) p.history q.history ∨
      q.history = ⟨p.now, .exited (.fetcher i) .finished⟩ :: ⟨p.now, .clientReleased i⟩ ::
        ⟨p.now, .received i .stop⟩ :: p.history := by
  obtain ⟨stage, asked⟩ := w
  cases h with
  | abort => exact .inl (unsignalled_endFetcher (by simp))
  | notCreated _ he =>
    refine .inl (unsignalled_endFetcher ?_)
    rintro rfl
    simp at he
  | create | acquire => exact .inl (.refl _)
  | created => exact .inl (.one rfl)
  | receiveStop hst =>
    obtain rfl := hst
    exact .inr rfl
  | receiveItem => exact .inl (.trans (.one rfl) (.one rfl))
  | idle => exact .inl unsignalled_tryPoll
  | handOver => exact .inl (.trans (.one rfl) (.one rfl))
  | @settle item since r outcome =>
    have hpast : History.Adds (fun e => e.signals = false) p.history
        ((p.record (.processEnded i item r)).record
          (.reported i item outcome (p.now - since))).history :=
      .trans (.one rfl) (.one rfl)
    exact .inl (hpast.trans unsignalled_tryPoll)
  | @lose item since r ending _ _ he =>
    have hpast : History.Adds (fun e => e.signals = false) p.history
        (p.record (.processEnded i item r)).history := .one rfl
    refine .inl (hpast.trans (unsignalled_endFetcher ?_))
    rintro rfl
    simp at he
  | @handed item payload since d =>
    have hpast : History.Adds (fun e => e.signals = false) p.history
        ((p.record (.payloadQueued i payload)).record
          (.reported i item (.parsed payload) (p.now - since))).history :=
      .trans (.one rfl) (.one rfl)
    exact .inl (hpast.trans unsignalled_tryPoll)
  | stalled =>
    have hpast : History.Adds (fun e => e.signals = false) p.history
        (p.record (.handoffStalled (.fetcher i) .emitData)).history := .one rfl
    exact .inl (hpast.trans (unsignalled_endFetcher (by simp)))
  | injected hst => exact absurd hst (hn _)

/-- An emit worker leaves signals alone, or takes one and finishes. -/
theorem EmitterMove.signals {w : EmitWorker} (h : EmitterMove p j w q) :
    History.Adds (fun e => e.signals = false) p.history q.history ∨
      q.history = ⟨p.now, .exited (.emitter j) .finished⟩ :: ⟨p.now, .taken j .stop⟩ ::
        p.history := by
  cases h with
  | abort => exact .inl (.one rfl)
  | queue | acquire => exact .inl (.refl _)
  | takeStop => exact .inr rfl
  | takePayload => exact .inl (.trans (.one rfl) (.one rfl))
  | delivered => exact .inl (.one rfl)
  | failed _ he =>
    refine .inl (.trans (.one rfl) (.one ?_))
    rcases he with ⟨e, rfl⟩ | ⟨m, rfl⟩ <;> rfl

theorem heeded_move (h : p.history.Heeded) (hk : Handshake p) (hm : Move p q) :
    q.history.Heeded := by
  cases hm with
  | @invoke n r q hn hi =>
    exact h.of_adds (hi.adds rfl fun _ => rfl)
  | cancel | drop => exact h.of_adds (.one rfl)
  | close =>
    refine h.of_adds ?_
    unfold Pipeline.close
    split <;> exact .one rfl
  | tick => exact h
  | call hm hc => exact h.of_adds (hc.records.mono fun _ => CallStage.signals_of_records)
  | @fetcher i w q hw hf =>
    rcases hf.signals fun k hk' => hk.fetcher i k (by simp [fetchStage?, hw, hk']) with ha | hq
    · exact h.of_adds ha
    · intro role
      have := h role
      rw [hq]
      cases role <;> simp_all [History.stopsTaken, History.finishersOf, finishers, Task.role?]
  | emitter hw he =>
    rcases he.signals with ha | hq
    · exact h.of_adds ha
    · intro role
      have := h role
      rw [hq]
      cases role <;> simp_all [History.stopsTaken, History.finishersOf, finishers, Task.role?]

theorem Reaches.heeded (h : p₀.Reaches p) (hb : build settings origin = .built p₀) :
    p.history.Heeded := by
  refine h.invariant ?_ fun r _ hr ih hm => heeded_move ih (hr.handshake hb) hm
  obtain ⟨-, -, rfl⟩ := build_eq_built hb
  intro role
  cases role <;> rfl

/-- Every fetch stop signal is still on its queue, or has ended a worker. -/
theorem Reaches.fetchStops_split (h : p₀.Reaches p) (hb : build settings origin = .built p₀) :
    p.history.fetchStops =
      (p.history.finishersOf .fetch).length + p.intake.messages.count .stop := by
  rw [History.fetchStops, (h.balanced hb).intake, List.count_append, ← h.heeded hb]
  rfl

/-- Every emit stop signal is still on its queue, or has ended a worker. -/
theorem Reaches.emitStops_split (h : p₀.Reaches p) (hb : build settings origin = .built p₀) :
    p.history.emitStops =
      (p.history.finishersOf .emit).length + p.outtake.messages.count .stop := by
  rw [History.emitStops, (h.balanced hb).outtake, List.count_append, ← h.heeded hb]
  rfl

/-- A pool with a worker left has not finished. -/
theorem Reaches.finishersOf_lt {role : Role} (h : p₀.Reaches p)
    (hb : build settings origin = .built p₀) (ht : t ∈ p.pool role)
    (hn : (t, .finished) ∉ p.history.log Event.exit) :
    (p.history.finishersOf role).length < (p.pool role).length := by
  have hr := (h.tracked hb).toRoster
  exact Nat.lt_of_not_le fun hle => hn
    (hr.pool_finished role (h.staffed hb) hr.nodup (fun _ => id) hle ht)

/-- As long as a fetch worker is left, so is a signal, if there was one for each of them. -/
theorem Reaches.intake_ne_nil (h : p₀.Reaches p) (hb : build settings origin = .built p₀)
    (hs : p.settings.numClients.toNat ≤ p.history.fetchStops) (ht : t ∈ p.pool .fetch)
    (hn : (t, .finished) ∉ p.history.log Event.exit) : p.intake.messages ≠ [] := by
  intro hm
  have hlt := h.finishersOf_lt hb ht hn
  rw [h.fetchStops_split hb, hm] at hs
  simp only [pool, List.length_map, List.length_range, List.count_nil] at hlt hs
  omega

/-- As long as an emit worker is left, so is a signal, if there was one for each of them. -/
theorem Reaches.outtake_ne_nil (h : p₀.Reaches p) (hb : build settings origin = .built p₀)
    (hs : p.settings.numEmitters.toNat ≤ p.history.emitStops) (ht : t ∈ p.pool .emit)
    (hn : (t, .finished) ∉ p.history.log Event.exit) : p.outtake.messages ≠ [] := by
  intro hm
  have hlt := h.finishersOf_lt hb ht hn
  rw [h.emitStops_split hb, hm] at hs
  simp only [pool, List.length_map, List.length_range, List.count_nil] at hlt hs
  omega

section Gone

variable {u : FetchStage} {w : Fetcher}

theorem exited_afterFetcherPoll {v : Pipeline × Verdict} (hs : v.1.fetchStage? i = some u)
    (hq : (afterFetcherPoll i w v).fetchStage? i = some .exited) :
    ∃ e, (.fetcher i, e) ∈ (afterFetcherPoll i w v).history.log Event.exit := by
  obtain ⟨r, v⟩ := v
  cases v with
  | failed e => exact ⟨_, exits_endFetcher ▸ List.mem_append_right _ List.mem_cons_self⟩
  | active b => cases hq.symm.trans (fetchStage?_of_setFetcher (s := .queuing) hs rfl)
  | injecting k => cases hq.symm.trans (fetchStage?_of_setFetcher (s := .injecting k) hs rfl)

theorem exited_tryPoll (hs : p.fetchStage? i = some u)
    (hq : (p.tryPoll i w).fetchStage? i = some .exited) :
    ∃ e, (.fetcher i, e) ∈ (p.tryPoll i w).history.log Event.exit := by
  unfold tryPoll at hq ⊢
  dsimp only at hq ⊢
  split at hq
  · next hf =>
    rw [if_pos hf]
    refine exited_afterFetcherPoll (u := u) ?_ hq
    exact ((Polled.poll _ _).fetchStage i).trans hs
  · cases hq.symm.trans (fetchStage?_of_setFetcher (s := .queuing) hs rfl)

/-- A worker comes to its last stage only by its end. -/
theorem FetcherMove.exited (h : FetcherMove p i w q) (hw : p.fetchers[i]? = some w)
    (hq : q.fetchStage? i = some .exited) : ∃ e, (.fetcher i, e) ∈ q.history.log Event.exit := by
  have hs : p.fetchStage? i = some w.stage := by simp [fetchStage?, hw]
  have moved {r : Pipeline} {s : FetchStage} (hr : r.fetchers = (p.setFetcher i s).fetchers)
      (hne : s ≠ .exited) : r.fetchStage? i ≠ some .exited := fun he =>
    hne (Option.some.inj ((fetchStage?_of_setFetcher hs hr).symm.trans he))
  cases h with
  | abort | notCreated | receiveStop | lose | stalled =>
    exact ⟨_, exits_endFetcher ▸ List.mem_append_right _ List.mem_cons_self⟩
  | create | acquire | created | receiveItem | handOver => exact absurd hq (moved rfl (by simp))
  | idle => exact exited_tryPoll (p := { p with intakeLock := _ }) hs hq
  | settle | handed =>
    exact exited_tryPoll (p := { Pipeline.record _ _ with totalProcessed := _ }) hs hq
  | injected _ hi =>
    refine exited_afterFetcherPoll (u := w.stage) ?_ hq
    rcases (Idles.injected (t := .fetcher i) (inject?_injected hi)).stage i rfl with he | ⟨hn, -⟩
    · exact he.trans hs
    · rw [hs] at hn; cases hn

theorem EmitterMove.exited {w : EmitWorker} (h : EmitterMove p j w q)
    (hw : p.emitters[j]? = some w) (hq : q.emitStage? j = some .exited) :
    ∃ e, (.emitter j, e) ∈ q.history.log Event.exit := by
  have hs : p.emitStage? j = some w.stage := by simp [emitStage?, hw]
  have moved {r : Pipeline} {s : EmitStage} (hr : r.emitters = (p.setEmitter j s).emitters)
      (hne : s ≠ .exited) : r.emitStage? j ≠ some .exited := fun he =>
    hne (Option.some.inj ((emitStage?_of_setEmitter hs hr).symm.trans he))
  cases h with
  | abort | takeStop | failed =>
    exact ⟨_, exits_endWorker ▸ List.mem_append_right _ List.mem_cons_self⟩
  | queue | acquire | takePayload | delivered => exact absurd hq (moved rfl (by simp))

theorem Keeps.hasExited {own : Task} (h : Keeps own p q) (ht : t ≠ own) (hq : q.hasExited t) :
    p.hasExited t := by
  cases t with
  | fetcher i =>
    rcases h.fetchers i ht with he | ⟨-, hl⟩
    · exact he.symm.trans hq
    · cases hl.symm.trans hq
  | emitter j =>
    rcases h.emitters j ht with he | ⟨-, hl⟩
    · exact he.symm.trans hq
    · cases hl.symm.trans hq
  | call n => exact hq

theorem SameStages.hasExited (h : SameStages p q) (hq : q.hasExited t) : p.hasExited t := by
  cases t with
  | fetcher i =>
    exact (by rw [← getElem?_fetchStages, ← h.1, getElem?_fetchStages] : _ = _).trans hq
  | emitter j =>
    exact (by rw [← getElem?_emitStages, ← h.2, getElem?_emitStages] : _ = _).trans hq
  | call n => exact hq

/-- Whoever stands at the last stage of a worker is on record as ended. -/
theorem Reaches.exit_of_exited (h : p₀.Reaches p) (hb : build settings origin = .built p₀) :
    ∀ t, p.hasExited t → ∃ e, (t, e) ∈ p.history.log Event.exit := by
  refine h.invariant (I := fun p => ∀ t, p.hasExited t → ∃ e, (t, e) ∈ p.history.log Event.exit)
    ?_ fun r s hr ih hm => ?_
  · obtain ⟨-, -, rfl⟩ := build_eq_built hb
    rintro (i | j | n) ht
    · simp [hasExited, fetchStage?] at ht
    · simp [hasExited, emitStage?] at ht
    · exact ht.elim
  have kept {t : Task} (ht : r.hasExited t) : ∃ e, (t, e) ∈ s.history.log Event.exit := by
    obtain ⟨e, he⟩ := ih t ht
    exact ⟨e, (History.log_prefix_of_suffix _ hm.suffix).subset he⟩
  intro t ht
  cases hm with
  | invoke hn hi => exact kept (SameStages.hasExited (p := r.record _) hi.sameStages ht)
  | cancel | tick => exact kept (SameStages.hasExited (p := r) ⟨rfl, rfl⟩ ht)
  | close => exact kept ((close_sameStages r).hasExited ht)
  | drop => exact kept ((drop_sameStages r).hasExited ht)
  | @call n stage q hm hc =>
    refine kept (hc.keeps.hasExited ?_ ht)
    rintro rfl
    exact ht
  | @fetcher i w q hw hf =>
    by_cases hown : t = .fetcher i
    · subst hown
      exact hf.exited hw ht
    · exact kept (hf.keeps.hasExited hown ht)
  | @emitter j w q hw he =>
    by_cases hown : t = .emitter j
    · subst hown
      exact he.exited hw ht
    · exact kept (he.keeps.hasExited hown ht)

end Gone

/-- There was a stop signal for every emit worker, or a hand-off stalled. -/
def Provided (p : Pipeline) : Prop :=
  (∃ x ∈ p.history, x.event.isStall = true) ∨
    p.settings.numEmitters.toNat ≤ p.history.emitStops

/-- Emit stop signals are sent to all emit workers, unless a hand-off stalls. If checks are given
up while they inject, more signals are sent. -/
structure Supplied (p : Pipeline) : Prop where
  pending : ∀ n i, (n, .checkInjecting i) ∈ p.calls →
    p.settings.numEmitters.toNat ≤ p.history.emitStops + i.remaining
  sent : p.tracker.emitStopSent = true → p.Provided

namespace Supplied

variable {s : CallStage}

theorem emitStops_le {past h : History} (hs : past <:+ h) : past.emitStops ≤ h.emitStops :=
  (History.log_prefix_of_suffix _ hs).sublist.count_le _

/-- The injection does not end but with enough signals sent, and whoever injects in the end does
so for enough workers. -/
theorem extend (h : Supplied p) (hset : q.settings = p.settings)
    (hs : p.history <:+ q.history)
    (hsent : q.tracker.emitStopSent = true → p.tracker.emitStopSent = true ∨ q.Provided)
    (hc : ∀ n i, (n, .checkInjecting i) ∈ q.calls → (n, .checkInjecting i) ∈ p.calls ∨
      p.settings.numEmitters.toNat ≤ q.history.emitStops + i.remaining) : Supplied q where
  pending n i hm := by
    rw [hset]
    rcases hc n i hm with hp | hle
    · exact Nat.le_trans (h.pending n i hp) (Nat.add_le_add_right (emitStops_le hs) _)
    · exact hle
  sent hq := by
    rcases hsent hq with hp | hp
    · rcases h.sent hp with ⟨x, hx, hxe⟩ | hle
      · exact .inl ⟨x, hs.subset hx, hxe⟩
      · exact .inr (hset ▸ Nat.le_trans hle (emitStops_le hs))
    · exact hp

theorem invocation {r : Request} (h : Supplied p) (hi : Invocation p n r q) : Supplied q := by
  refine h.extend ?_ hi.records.suffix (by cases hi <;> exact .inl) fun m i hm => .inl ?_
  · cases hi <;> rfl
  · by_cases hmn : m = n
    · subst hmn
      cases hi with
      | start | check | status | offer | batch | finish =>
        rcases mem_addCall.mp hm with hm | ⟨-, hs⟩
        · exact hm
        · cases hs
      | batchRefused | batchTooLarge | batchEmpty | finishEarly | finishLate | finishAgain =>
        exact absurd hm not_mem_reply
    · exact (hi.keeps.calls m (by simpa using hmn) _).mp hm

/-- A call takes a step, and if it still injects, then for enough workers. -/
theorem of_call (h : Supplied p) (hc : CallMove p n s q)
    (hsent : q.tracker.emitStopSent = true → p.tracker.emitStopSent = true ∨ q.Provided)
    (hn : ∀ i, (n, .checkInjecting i) ∈ q.calls →
      p.settings.numEmitters.toNat ≤ q.history.emitStops + i.remaining) : Supplied q := by
  refine h.extend hc.settings hc.records.suffix hsent fun m i hm => ?_
  by_cases hmn : m = n
  · subst hmn
    exact .inr (hn i hm)
  · exact .inl ((hc.keeps.calls m (by simpa using hmn) _).mp hm)

/-- A check polls. It may begin to inject, for all emit workers. -/
theorem checked (h : Supplied p) (hpos : 0 < p.settings.numEmitters.toNat)
    (held : p.trackerLock.heldBy (.call n) = true) :
    Supplied (afterCheckPoll n (p.poll (.call n))) := by
  refine h.of_call (.checked held) (fun hs => ?_) fun i hm => ?_
  · rw [← sent_poll_eq (t := .call n) hpos]
    generalize p.poll (.call n) = v at hs
    obtain ⟨q, v⟩ := v
    cases v <;> exact .inl hs
  · have hr := poll_result p (.call n)
    generalize p.poll (.call n) = v at hm hr
    cases hr with
    | notStarted | latched | failed | noEmitters | active => exact absurd hm not_mem_reply
    | injecting _ _ hc =>
      cases stage_of_setCall hm
      rw [← (Polled.of_collect hc).settings]
      exact Nat.le_add_left _ _

/-- A check goes on with its injection. -/
theorem injected {i : Injection} {v : Pipeline × Verdict} (h : Supplied p)
    (hm : (n, .checkInjecting i) ∈ p.calls) (hi : p.inject? (.call n) i = some v) :
    Supplied (afterCheckPoll n v) := by
  have hmove : CallMove p n (.checkInjecting i) (afterCheckPoll n v) := .checkInjected hi
  have hdue := h.pending n i hm
  cases inject?_injected hi with
  | next hs hr =>
    refine h.of_call hmove .inl fun j hj => ?_
    cases stage_of_setCall hj
    have hstops : (afterCheckPoll n (({ p with
        outtake := p.outtake.push (.call n) .stop }.record (.stopQueued .emit)).queueEmitStop
          (.call n) (i.remaining - 1))).history.emitStops = p.history.emitStops + 1 := by
      simp [History.emitStops, afterCheckPoll, queueEmitStop, record, setCall]
    rw [hstops]
    dsimp only
    omega
  | last hs hr =>
    refine h.of_call hmove (fun _ => .inr (.inr ?_)) fun j hj => absurd hj not_mem_reply
    have hstops : (afterCheckPoll n ({ p with
        outtake := p.outtake.push (.call n) .stop }.record (.stopQueued .emit)).endInjection
          ).history.emitStops = p.history.emitStops + 1 := by
      simp [History.emitStops, afterCheckPoll, endInjection, record, reply, release]
    rw [hstops]
    change p.settings.numEmitters.toNat ≤ _
    omega
  | stalled _ _ hq =>
    subst hq
    refine h.of_call hmove (fun _ => .inr (.inl ?_)) fun j hj => absurd hj not_mem_reply
    exact ⟨_, List.mem_cons_of_mem _ (List.mem_cons_of_mem _ List.mem_cons_self), rfl⟩

theorem call (h : Supplied p) (hk : Handshake p) (hpos : 0 < p.settings.numEmitters.toNat)
    (hm : (n, s) ∈ p.calls) (hc : CallMove p n s q) : Supplied q := by
  have hmove := hc
  have hother : s.leadsTo (.checkInjecting default) = false →
      ∀ i, (n, .checkInjecting i) ∈ q.calls →
        p.settings.numEmitters.toNat ≤ q.history.emitStops + i.remaining := fun hs i hi => by
    have := hc.leadsTo hi
    cases s <;> simp_all
  cases hc with
  | startedBefore | opened | offerRefused | sent | unsent | batchRefused | noStops | lastStop
  | stalledOut | read | launching | launchFetcher | launchEmitter | offerAccepted | firstStop
  | nextStop | stopStalled => exact h.of_call hmove .inl (hother rfl)
  | batchAdmitted hl | batchExpired hl | batchPaused hl =>
    cases hl <;> exact h.of_call hmove .inl (hother rfl)
  | @offerPolled item wait held =>
    have hsent := sent_poll_eq (t := .call n) hpos
    refine h.of_call hmove (fun hs => .inl ?_) (hother rfl)
    rw [← hsent]
    generalize p.poll (.call n) = v at hs
    obtain ⟨q, v⟩ := v
    cases v <;> exact hs
  | offerInjected => exact absurd hm (hk.offer n _ _ _)
  | checked held => exact h.checked hpos held
  | checkInjected hi => exact h.injected hm hi

theorem move (h : Supplied p) (hr : p₀.Reaches p) (hb : build settings origin = .built p₀)
    (hm : Move p q) : Supplied q := by
  cases hm with
  | @invoke n r q hn hi =>
    have hinvoked : Supplied (p.record (.invoked n r)) :=
      h.extend rfl (List.suffix_cons _ _) .inl fun _ _ => .inl
    exact hinvoked.invocation hi
  | cancel =>
    exact h.extend rfl (List.suffix_cons _ _) .inl fun _ _ hm => .inl (List.mem_filter.mp hm).1
  | close =>
    have hk := CallsKept.close p
    refine h.extend hk.settings hk.history.suffix (fun hs => .inl ?_) fun _ _ hm =>
      .inl (hk.calls ▸ hm)
    unfold Pipeline.close at hs
    split at hs <;> exact hs
  | drop =>
    exact h.extend rfl (List.suffix_cons _ _) .inl fun _ _ => .inl
  | tick => exact h.extend rfl List.suffix_rfl .inl fun _ _ => .inl
  | call hm hc => exact h.call (hr.handshake hb) (hr.numEmitters_pos hb) hm hc
  | @fetcher i w q hw hf =>
    have hk := hf.callsKept
    have hn : ∀ k, w.stage ≠ .injecting k := fun k hk =>
      (hr.handshake hb).fetcher i k (by simp [fetchStage?, hw, hk])
    exact h.extend hk.settings hk.history.suffix
      (fun hs => .inl ((hf.sent (hr.numEmitters_pos hb) hn).symm.trans hs)) fun _ _ hm =>
        .inl (hk.calls ▸ hm)
  | emitter hw he =>
    have hk := he.callsKept
    exact h.extend hk.settings hk.history.suffix (fun hs => .inl (he.sent.symm.trans hs))
      fun _ _ hm => .inl (hk.calls ▸ hm)

end Supplied

theorem Reaches.supplied (h : p₀.Reaches p) (hb : build settings origin = .built p₀) :
    Supplied p := by
  refine h.invariant ?_ fun r _ hr ih hm => ih.move hr hb hm
  obtain ⟨-, -, rfl⟩ := build_eq_built hb
  exact ⟨nofun, nofun⟩

end Pipeline

end DocumentPipeline
