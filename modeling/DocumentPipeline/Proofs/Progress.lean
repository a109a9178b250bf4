import DocumentPipeline.Proofs.Draining
import DocumentPipeline.Proofs.Shutdown

/-! # A drain does not deadlock

As long as a worker is left, a drain that nothing disturbs can be brought forward. Fetch workers
wait for messages, for slots of the outtake queue or for each other, callers for slots, for locks
or for a poll. Whoever stands first in a line can go on, or waits for somebody in another line;
the lines are followed from the intake queue to the producers, to the tracker, and to the outtake
queue and its workers.
-/
namespace DocumentPipeline

namespace Pipeline

variable {p q r p₀ : Pipeline} {i j n : Nat} {t : Task} {a : Action} {s u : CallStage}
  {settings : Settings} {origin : Instant}

theorem step_fetcher {w : Fetcher} (hw : p.fetchers[i]? = some w) :
    p.step (.proceed (.fetcher i)) = p.stepFetcher? i w := by
  simp [step, proceed?, hw]

theorem step_emitter {w : EmitWorker} (hw : p.emitters[j]? = some w) :
    p.step (.proceed (.emitter j)) = p.stepEmitter? j w := by
  simp [step, proceed?, hw]

theorem Sections.step_call (hx : Sections p) (hm : (n, s) ∈ p.calls) :
    p.step (.proceed (.call n)) = p.stepCall? n s := by
  simp [step, proceed?, hx.callStage?_eq hm]

theorem Reaches.queueSize_pos (h : p₀.Reaches p) (hb : build settings origin = .built p₀) :
    0 < p.settings.queueSize.toNat := by
  obtain ⟨hv, -, rfl⟩ := build_eq_built hb
  rw [h.settings]
  have := ((Settings.validate_eq_ok_iff _).mp hv).1
  rw [Nat.pos_iff_ne_zero]
  exact fun hz => this (UInt64.toNat_inj.mp (by simpa using hz))

/-- The drain can be brought forward, or somebody can take a turn. Calls take turns only at
stages of a kind. -/
def Eases (p : Pipeline) (kind : CallStage → Prop) : Prop :=
  p.CanAdvance ∨ ∃ a q, Turn p a q ∧ q.toll < p.toll ∧ (q.calls = p.calls ∨
    ∃ n s, (n, s) ∈ p.calls ∧ kind s ∧ CallMove p n s q)

/-- A call at this stage has to take a turn; if it is a check, it finds no worker to collect. -/
def Yields (p : Pipeline) (s : CallStage) : Prop :=
  0 < s.toll ∧ (s = .checking → p.tracker.exits = [])

section Outtake

/-- Whoever holds the outtake lock takes a message. -/
theorem Draining.outtake_head_eases {u : EmitStage} {K : CallStage → Prop} (h : Draining p₀ p)
    (hst : p.emitStage? j = some u) (hu : u.asksOuttake = true)
    (held : p.outtakeLock.heldBy (.emitter j) = true) (hm : p.outtake.messages ≠ []) :
    p.Eases K := by
  obtain ⟨w, hw, rfl⟩ := Option.map_eq_some_iff.mp hst
  cases hs : w.stage with
  | exited | launched | emitting => rw [hs] at hu; cases hu
  | queuing =>
    have hstep : p.step (.proceed (.emitter j)) = some (p.setEmitter j .receiving) := by
      simp [step_emitter hw, stepEmitter?, hs, held]
    refine .inr ⟨_, _, ⟨rfl, hstep, rfl, .refl _⟩, ?_, .inl rfl⟩
    exact toll_setEmitter hst (by simp [hs])
  | receiving =>
    obtain ⟨m, ms, hms⟩ := List.exists_cons_of_ne_nil hm
    have htake : p.outtake.take? = some (m, { p.outtake with messages := ms }) := by
      simp [Queue.take?, hms]
    cases m with
    | stop =>
      have hstep : p.step (.proceed (.emitter j)) = some (({ p with
          outtake := { p.outtake with messages := ms }
          outtakeLock := p.outtakeLock.release (.emitter j) }.record (.taken j .stop)).endEmitter j
            .finished) := by
        simp [step_emitter hw, stepEmitter?, hs, htake]
      exact .inl (h.canAdvance (x := ⟨p.now, .taken j .stop⟩) hstep rfl trivial (.refl _)
        (.one rfl) rfl rfl)
    | data payload =>
      have hstep : p.step (.proceed (.emitter j)) = some ((({ p with
          outtake := { p.outtake with messages := ms }
          outtakeLock := p.outtakeLock.release (.emitter j) }.record
            (.taken j (.data payload))).setEmitter j (.emitting payload)).record
              (.emitBegan j payload)) := by
        simp [step_emitter hw, stepEmitter?, hs, htake]
      exact .inl (h.canAdvance (x := ⟨p.now, .taken j (.data payload)⟩) hstep rfl trivial
        (.refl _) (.one rfl) rfl rfl)

/-- An emit worker is left, and there is a message for it. -/
theorem Draining.outtake_eases {K : CallStage → Prop} (h : Draining p₀ p)
    (hb : build settings origin = .built p₀) (hl : p.Left .emit (.emitter j))
    (hm : p.outtake.messages ≠ []) : p.Eases K := by
  obtain ⟨w, hw, hne⟩ := h.emitter_of_left hb hl
  have hst : p.emitStage? j = some w.stage := by simp [emitStage?, hw]
  cases hs : w.stage with
  | exited => exact absurd hs hne
  | launched =>
    have hstep : p.step (.proceed (.emitter j)) = some (p.queueEmitter j) := by
      simp [step_emitter hw, stepEmitter?, hs]
    refine .inr ⟨_, _, ⟨rfl, hstep, rfl, .refl _⟩, ?_, .inl rfl⟩
    exact toll_setEmitter (s := .queuing) (hs ▸ hst) (by simp)
  | emitting payload =>
    have hstep : p.step (.emitReturns j (.value ())) =
        some ((p.record (.emitEnded j payload (.value ()))).queueEmitter j) := by
      simp [step, hw, emitReturned?, hs]
    exact .inl (h.canAdvance hstep rfl (.inl rfl) (.refl _) (.refl _) rfl rfl)
  | queuing | receiving =>
    -- whoever holds the lock goes on
    obtain ⟨u, held, hasks⟩ := (h.reaches.lockLines hb).outtake.exists_holder
      (t := .emitter j) ⟨_, hst, by simp [hs]⟩
    cases u with
    | fetcher | call => exact hasks.elim
    | emitter k =>
      obtain ⟨u, hu, hasks⟩ := hasks
      exact h.outtake_head_eases hu hasks held hm

end Outtake

section Tracker

/-- A call takes its turn. -/
theorem Draining.call_eases (hx : Sections p) (hm : (n, s) ∈ p.calls)
    (hs : p.stepCall? n s = some q) (hnow : q.now = p.now)
    (hh : History.Adds (fun e => e.disturbs = false) p.history q.history)
    (htoll : q.toll < p.toll) (hpos : 0 < s.toll)
    (hexits : s = .checking → p.tracker.exits = []) : p.Eases p.Yields :=
  .inr ⟨.proceed (.call n), q, ⟨rfl, (hx.step_call hm).trans hs, hnow, hh⟩, htoll,
    .inr ⟨n, s, hm, ⟨hpos, hexits⟩, stepCall?_move hs⟩⟩

theorem Polled.undisturbed (h : Polled p q) :
    History.Adds (fun e => e.disturbs = false) p.history q.history :=
  h.history.mono fun e he => by cases e <;> simp_all

/-- An offer polls. -/
theorem Draining.offerPolling_eases {item : WorkItem} {wait : Wait} (h : Draining p₀ p)
    (hb : build settings origin = .built p₀) (hm : (n, .offerPolling item wait) ∈ p.calls)
    (held : p.trackerLock.heldBy (.call n) = true) : p.Eases p.Yields := by
  have hx := h.reaches.sections hb
  have hp := Polled.poll p (.call n)
  have hr := poll_result p (.call n)
  refine call_eases (q := afterOfferPoll n item wait (p.poll (.call n))) hx hm
    (by simp [stepCall?, held]) (now_afterOfferPoll.trans hp.now) ?_ ?_ (by simp) (by simp)
  · generalize p.poll (.call n) = v at hp hr
    obtain ⟨q, v⟩ := v
    cases v with
    | failed e => exact absurd hr (h.not_failed hb)
    | active | injecting => exact hp.undisturbed
  · generalize p.poll (.call n) = v at hp hr
    obtain ⟨q, v⟩ := v
    have hsame : q.toll = p.toll := toll_of_same (.polled hp) hp.calls
    have hmq : (n, .offerPolling item wait) ∈ q.calls := hp.calls ▸ hm
    have hk : (q.calls.map Prod.fst).Nodup := hp.calls ▸ hx.keys
    rw [← hsame]
    cases v with
    | failed e => exact absurd hr (h.not_failed hb)
    | active | injecting => exact toll_setCall hk hmq (by simp)

/-- A collection that finds workers to collect collects the first of them. -/
theorem collected_of_collect {e : Ending} {rest : List (Task × Ending)}
    (he : p.tracker.exits = (t, e) :: rest) (hc : p.collect = (q, none)) :
    History.Adds (fun e => e.isStall = false) (⟨p.now, .collected t e⟩ :: p.history) q.history := by
  rw [collect, he, collectFrom] at hc
  dsimp only at hc
  split at hc
  · have hp := Polled.collectFrom
      ({ p with tracker := { p.tracker with exits := rest } }.countExit t e) rest
    rw [hc] at hp
    exact hp.history.mono fun e he => by cases e <;> simp_all
  · cases hc

/-- A check polls: it collects the workers that have ended, or takes its turn. -/
theorem Draining.checking_eases (h : Draining p₀ p) (hb : build settings origin = .built p₀)
    (hm : (n, .checking) ∈ p.calls) (held : p.trackerLock.heldBy (.call n) = true) :
    p.Eases p.Yields := by
  have hx := h.reaches.sections hb
  have hp := Polled.poll p (.call n)
  have hr := poll_result p (.call n)
  have hs : p.stepCall? n .checking = some (afterCheckPoll n (p.poll (.call n))) := by
    simp [stepCall?, held]
  cases he : p.tracker.exits with
  | nil =>
    refine call_eases hx hm hs (now_afterCheckPoll.trans hp.now) ?_ ?_ (by simp) fun _ => he
    · generalize p.poll (.call n) = v at hp hr
      obtain ⟨q, v⟩ := v
      cases v with
      | failed e => exact absurd hr (h.not_failed hb)
      | active => exact hp.undisturbed.trans (.one rfl)
      | injecting => exact hp.undisturbed
    · generalize p.poll (.call n) = v at hp hr
      obtain ⟨q, v⟩ := v
      have hsame : q.toll = p.toll := toll_of_same (.polled hp) hp.calls
      have hmq : (n, .checking) ∈ q.calls := hp.calls ▸ hm
      have hk : (q.calls.map Prod.fst).Nodup := hp.calls ▸ hx.keys
      rw [← hsame]
      cases v with
      | failed e => exact absurd hr (h.not_failed hb)
      | active => exact toll_reply hk hmq (by simp)
      | injecting => exact toll_setCall hk hmq (by simp)
  | cons x rest =>
    obtain ⟨t, e⟩ := x
    have hrequest : p.history.requestOf n = some .checkActive := by
      obtain ⟨r, hr, hserves⟩ := hx.request n _ hm
      exact hr.trans (congrArg some hserves)
    suffices hadds : History.Adds (fun e => e.isStall = false)
        (⟨p.now, .collected t e⟩ :: p.history) (afterCheckPoll n (p.poll (.call n))).history by
      obtain ⟨ha, hstall⟩ := advances_of_step h.unstalled ((hx.step_call hm).trans hs) rfl
        (.refl _) hadds rfl fun _ _ _ => ⟨n, rfl, hrequest⟩
      exact .inl (canAdvance_of_advances ha trivial hstall)
    generalize p.poll (.call n) = v at hp hr
    cases hr with
    | notStarted hn => cases hn.symm.trans (h.started hb)
    | latched _ hf => cases hf.symm.trans (h.failure hb)
    | failed hs hf hc => exact absurd (PollResult.failed (t := .call n) hs hf hc) (h.not_failed hb)
    | injecting _ _ hc => exact (collected_of_collect he hc).trans (.one rfl)
    | noEmitters _ _ hc => exact (collected_of_collect he hc).trans (.one rfl)
    | active _ _ hc => exact (collected_of_collect he hc).trans (.one rfl)

/-- The signal of a check that injects gets in, unless the outtake queue is full. -/
theorem Draining.checkInjecting_eases {k : Injection} (h : Draining p₀ p)
    (hb : build settings origin = .built p₀) (hl : p.Left .emit (.emitter j))
    (hm : (n, .checkInjecting k) ∈ p.calls) : p.Eases p.Yields := by
  have hr := h.reaches
  have hx := hr.sections hb
  have hline := (hr.lines hb).outtake_senders_eq hx (hr.handshake hb) (hr.tracked hb)
    (hr.staffed hb) hm
  cases hs : p.outtake.hasSlot (.call n) with
  | false =>
    refine h.outtake_eases hb hl fun hnil => ?_
    have hfull := full_of_no_slot hline hs
    rw [((hr.lines hb).outtake).capacity, hnil] at hfull
    exact absurd hfull (by decide)
  | true =>
    obtain ⟨v, hv⟩ : ∃ v, p.inject? (.call n) k = some v := by
      unfold inject?
      rw [if_pos hs]
      dsimp only
      split <;> exact ⟨_, rfl⟩
    have hadds : History.Adds (fun e => e.isStall = false)
        (⟨p.now, .stopQueued .emit⟩ :: p.history) (afterCheckPoll n v).history := by
      cases inject?_injected hv with
      | last | next => exact .one (by simp)
      | stalled hn => cases hn.symm.trans hs
    have hstep : p.step (.proceed (.call n)) = some (afterCheckPoll n v) := by
      simp [hx.step_call hm, stepCall?, hv]
    exact .inl (h.canAdvance hstep rfl trivial (.refl _) hadds rfl rfl)

/-- No announcement stalls. -/
theorem Draining.not_stallingOut (h : Draining p₀ p) (hb : build settings origin = .built p₀) :
    (n, .stallingOut) ∉ p.calls := by
  intro hm
  obtain ⟨x, hx, hs⟩ := ((h.reaches.handoffs hb).stalled n hm).isStall
  cases (h.unstalled x hx).symm.trans hs

/-- Whoever holds the tracker's lock can go on, and does not keep it for ever. -/
theorem Draining.tracker_eases (h : Draining p₀ p) (hb : build settings origin = .built p₀)
    (hl : p.Left .emit (.emitter j)) (ht : p.AsksTracker t) : p.Eases p.Yields := by
  have hr := h.reaches
  have hx := hr.sections hb
  obtain ⟨u, held, hasks⟩ := (hr.lockLines hb).tracker.exists_holder ht
  cases u with
  | emitter => exact hasks.elim
  | fetcher i =>
    obtain ⟨u, hu, hasks⟩ := hasks
    cases u with
    | injecting k => exact absurd hu ((hr.handshake hb).fetcher i k)
    | _ => cases hasks
  | call n =>
    obtain ⟨s, hm, hs⟩ := hasks
    cases s with
    | starting =>
      exact call_eases hx hm (q := p.reply n .started) (by simp [stepCall?, held, h.started hb])
        rfl (.one rfl) (toll_reply hx.keys hm (by simp)) (by simp) (by simp)
    | reading =>
      exact call_eases hx hm (q := p.reply n (.status p.statusView)) (by simp [stepCall?, held])
        rfl (.one rfl) (toll_reply hx.keys hm (by simp)) (by simp) (by simp)
    | launching c =>
      cases ((hr.staffed hb).launching n c hm).1.symm.trans (h.started hb)
    | offerPolling item wait => exact h.offerPolling_eases hb hm held
    | offerInjecting item wait k => exact absurd hm ((hr.handshake hb).offer n item wait k)
    | stallingOut => exact absurd hm (h.not_stallingOut hb)
    | checking => exact h.checking_eases hb hm held
    | checkInjecting k => exact h.checkInjecting_eases hb hl hm
    | offering | sending | batching | pausing | finishing | stopping => cases hs

end Tracker

section Producers

/-- Whoever waits first in line at the empty intake queue gets a slot. -/
theorem Draining.sender_canAdvance {senders : List Task} (h : Draining p₀ p)
    (hb : build settings origin = .built p₀) (hm : p.intake.messages = [])
    (hs : p.intake.senders = t :: senders) : p.CanAdvance := by
  have hx := h.reaches.sections hb
  have hline := (h.reaches.lines hb).intake
  have hslot : p.intake.hasSlot t = true := by
    have := h.reaches.queueSize_pos hb
    simp [Queue.hasSlot, hm, hs, hline.capacity, this]
  have hwaits : p.AwaitsIntake t := (hline.mem_iff t).mp (hs ▸ List.mem_cons_self)
  cases t with
  | fetcher | emitter => exact hwaits.elim
  | call n =>
    obtain ⟨s, hn, hsends⟩ := hwaits
    cases s with
    | sending item deadline =>
      have hstep : p.step (.proceed (.call n)) = some (({ p with
          intake := p.intake.push (.call n) (.data item) }.record (.admitted n [item])).reply n
            (.offered (.ok true))) := by
        simp [hx.step_call hn, stepCall?, hslot]
      exact h.canAdvance hstep rfl trivial (.one rfl) (.refl _) rfl rfl
    | stopping left deadline =>
      by_cases hlast : left ≤ 1
      · have hstep : p.step (.proceed (.call n)) = some (({ p with
            intake := p.intake.push (.call n) .stop }.record (.stopQueued .fetch)).reply n
              (.finished (.ok ()))) := by
          simp [hx.step_call hn, stepCall?, hslot, hlast]
        exact h.canAdvance (x := ⟨p.now, .stopQueued .fetch⟩) hstep rfl trivial (.refl _)
          (.one rfl) rfl rfl
      · have hstep : p.step (.proceed (.call n)) = some (({ p with
            intake := p.intake.push (.call n) .stop }.record (.stopQueued .fetch)).queueFetchStop n
              (left - 1)) := by
          simp [hx.step_call hn, stepCall?, hslot, hlast]
        exact h.canAdvance (x := ⟨p.now, .stopQueued .fetch⟩) hstep rfl trivial (.refl _)
          (.one rfl) rfl rfl
    | _ => cases hsends

/-- A batch that finds room for all of it is admitted. -/
theorem history_testBatch {items : List WorkItem} {deadline : Option Nat}
    (hroom : items.length ≤ p.intake.free) :
    (p.testBatch n items deadline).history =
      ⟨p.now, .replied n (.offered (.ok true))⟩ :: ⟨p.now, .admitted n items⟩ ::
        ⟨p.now, .tested n p.intake.free⟩ :: p.history := by
  have hpush : p.intake.pushAll? (items.map Message.data) =
      some { p.intake with messages := p.intake.messages ++ items.map .data } :=
    Queue.pushAll?_eq_some_iff.mpr ⟨by simpa using hroom, rfl⟩
  simp only [testBatch, record, hpush, if_pos hroom]
  rfl

/-- A batch looks for room when its pause is over. -/
theorem Sections.step_pausing {items : List WorkItem} {wake : Nat} {deadline : Option Nat}
    (hx : Sections p) (hn : (n, .pausing items wake deadline) ∈ p.calls) (hdue : wake ≤ p.now) :
    p.step (.proceed (.call n)) = some (p.testBatch n items deadline) := by
  rw [hx.step_call hn, stepCall?, if_pos hdue]

/-- A batch that waits at the empty intake queue is admitted at its next look. -/
theorem Draining.pausing_canAdvance {items : List WorkItem} {wake : Nat} {deadline : Option Nat}
    (h : Draining p₀ p) (hb : build settings origin = .built p₀)
    (hn : (n, .pausing items wake deadline) ∈ p.calls) (hm : p.intake.messages = [])
    (hs : p.intake.senders = []) : p.CanAdvance := by
  obtain ⟨hfits, hwake⟩ := h.reaches.timely hb n _ hn
  obtain ⟨late, hlate⟩ : ∃ late, late = { p with now := p.now + (wake - p.now) } := ⟨_, rfl⟩
  have htick : p.step (.tick (wake - p.now)) = some late := hlate ▸ rfl
  have hunstalled : ∀ x ∈ late.history, x.event.isStall = false := hlate ▸ h.unstalled
  have hroom : items.length ≤ late.intake.free := by
    rw [hlate, Queue.free, hm, hs, ((h.reaches.lines hb).intake).capacity]
    simpa using hfits
  have hnow : late.now = p.now + (wake - p.now) := hlate ▸ rfl
  have hdue : wake ≤ late.now := by omega
  have hcalls : late.calls = p.calls := hlate ▸ rfl
  have hq := ((h.reaches.step htick).sections hb).step_pausing (hcalls ▸ hn) hdue
  have hh := @history_testBatch late n items deadline hroom
  generalize late.testBatch n items deadline = q at hq hh
  have hadds : History.Adds (fun e => e.isStall = false)
      (⟨late.now, .replied n (.offered (.ok true))⟩ :: ⟨late.now, .admitted n items⟩ ::
        ⟨late.now, .tested n late.intake.free⟩ :: late.history) q.history := hh ▸ .refl _
  obtain ⟨ha, hstall⟩ := advances_of_step hunstalled hq rfl (.trans (.one rfl) (.one rfl))
    hadds rfl fun t e he => absurd he (Event.ne_collected rfl t e)
  exact ⟨[.tick (wake - p.now)], late, .proceed (.call n), q, by simp, by simp [htick], by omega,
    trivial, ha, hstall⟩

/-- An emit worker outlives all fetch workers. -/
theorem Draining.emitter_left (h : Draining p₀ p) (hb : build settings origin = .built p₀)
    (hl : p.Left .fetch t) : p.Left .emit (.emitter 0) where
  mem := by simpa [pool] using h.reaches.numEmitters_pos hb
  alive e he := by
    obtain rfl := h.finished hb he
    have htaken := h.reaches.dismissed hb 0 he
    have hqueued : .stop ∈ p.history.log Event.outQueued := by
      rw [(h.reaches.balanced hb).outtake]
      exact List.mem_append_left _ (List.mem_map_of_mem (f := Prod.snd) htaken)
    have hin := (h.reaches.handshake hb).fetchers_of_stop hqueued
    obtain ⟨i, hi, rfl⟩ := List.mem_map.mp hl.mem
    exact hl.alive _ ((h.reaches.tracked hb).mem_exit_of_collection (hin i (List.mem_range.mp hi)))

/-- The announcement has not begun to send its signals: whoever holds the producer lock goes on,
and nobody waits for a slot. -/
theorem Draining.producer_eases (h : Draining p₀ p) (hb : build settings origin = .built p₀)
    (hl : p.Left .emit (.emitter j)) (hn : (n, .finishing) ∈ p.calls)
    (hm : p.intake.messages = []) (hs : p.intake.senders = []) : p.Eases p.Yields := by
  have hr := h.reaches
  have hx := hr.sections hb
  have hnone {k : Nat} {s : CallStage} (hk : (k, s) ∈ p.calls) (hsends : s.sends = true) :
      p.Eases p.Yields := by
    have := ((hr.lines hb).intake.mem_iff (.call k)).mpr ⟨s, hk, hsends⟩
    rw [hs] at this
    cases this
  have hrefused : p.refusal? = some .shuttingDown := by
    simp [refusal?, h.started hb, hx.announced n _ hn rfl]
  obtain ⟨u, held, hasks⟩ := (hr.lockLines hb).producer.exists_holder
    (t := .call n) ⟨_, hn, rfl⟩
  cases u with
  | fetcher | emitter => exact hasks.elim
  | call k =>
    obtain ⟨s, hk, hs'⟩ := hasks
    have refused (hstep : p.step (.proceed (.call k)) =
        some (p.reply k (.offered (.error .shuttingDown)))) : p.Eases p.Yields :=
      .inl (h.canAdvance hstep rfl trivial (.refl _) (.refl _) rfl rfl)
    cases s with
    | offering => exact refused (by simp [hx.step_call hk, stepCall?, held, hrefused])
    | batching => exact refused (by simp [hx.step_call hk, stepCall?, held, hrefused])
    | finishing =>
      have hpos := hr.numClients_pos hb
      refine call_eases hx hk (q := p.queueFetchStop k p.settings.numClients.toNat)
        (by simp [stepCall?, held, Nat.pos_iff_ne_zero.mp hpos]) rfl (.one rfl) ?_ (by simp)
        (by simp)
      exact toll_setCall (p := { p with intake := p.intake.join (.call k) }.record
        (.handoffBegan (.call k) .fetchStop)) (u := .stopping _ _) hx.keys hk (by simp)
    | offerPolling => exact h.tracker_eases hb hl (t := .call k) ⟨_, hk, rfl⟩
    | offerInjecting => exact absurd hk ((hr.handshake hb).offer _ _ _ _)
    | sending | stopping => exact hnone hk rfl
    | pausing items wake deadline => exact .inl (h.pausing_canAdvance hb hk hm hs)
    | stallingOut => exact absurd hk (h.not_stallingOut hb)
    | starting | launching | checking | checkInjecting | reading => cases hs'

end Producers

section Intake

/-- A fetch worker waits at the empty intake queue, and nobody is about to put a message on it: the
announcement has not come to that yet. -/
theorem Draining.announcement_eases (h : Draining p₀ p) (hb : build settings origin = .built p₀)
    (hl : p.Left .fetch t) (hm : p.intake.messages = []) (hs : p.intake.senders = []) :
    p.Eases p.Yields := by
  have hr := h.reaches
  have ha := hr.announced hb
  rcases h.announced with ⟨n, hn⟩ | hdone
  · rw [hn] at ha
    cases ha with
    | @pending _ s _ hcall hsent =>
      cases s with
      | finishing => exact h.producer_eases hb (h.emitter_left hb hl) hcall hm hs
      | stopping =>
        have := ((hr.lines hb).intake.mem_iff (.call n)).mpr ⟨_, hcall, rfl⟩
        rw [hs] at this
        cases this
      | stallingOut => exact absurd hcall (h.not_stallingOut hb)
      | _ => exact hsent.elim
  · -- all signals are on the queue, and the worker has not received one
    rw [hdone] at ha
    exact absurd hm (hr.intake_ne_nil hb (Nat.le_of_eq ha.fetchStops_eq.symm) hl.mem (hl.alive _))

/-- Whoever holds the intake lock takes a message, or waits for somebody who goes on. -/
theorem Draining.intake_head_eases {u : FetchStage} (h : Draining p₀ p)
    (hb : build settings origin = .built p₀) (hl : p.Left .fetch t)
    (hst : p.fetchStage? i = some u) (hu : u.asksIntake = true)
    (held : p.intakeLock.heldBy (.fetcher i) = true) : p.Eases p.Yields := by
  obtain ⟨w, hw, rfl⟩ := Option.map_eq_some_iff.mp hst
  cases hs : w.stage with
  | exited | launched | creating | processing | handing | injecting => rw [hs] at hu; cases hu
  | queuing =>
    have hstep : p.step (.proceed (.fetcher i)) =
        some (p.setFetcher i (.receiving (p.now + fetchPollTimeout))) := by
      simp [step_fetcher hw, stepFetcher?, hs, held]
    refine .inr ⟨_, _, ⟨rfl, hstep, rfl, .refl _⟩, ?_, .inl rfl⟩
    exact toll_setFetcher hst (by simp [hs])
  | receiving deadline =>
    cases hm : p.intake.messages with
    | cons m ms =>
      have hstep : p.step (.proceed (.fetcher i)) = some
          ({ p with intake := { p.intake with messages := ms } }.acceptMessage i w m) := by
        simp [step_fetcher hw, stepFetcher?, hs, Queue.take?, hm]
      refine .inl (h.canAdvance (x := ⟨p.now, .received i m⟩) hstep rfl trivial (.refl _) ?_ rfl
        rfl)
      cases m with
      | stop => exact adds_endFetcher (P := fun e => e.isStall = false) rfl rfl
      | data item => exact .one rfl
    | nil =>
      cases hsend : p.intake.senders with
      | cons t senders => exact .inl (h.sender_canAdvance hb hm hsend)
      | nil => exact h.announcement_eases hb hl hm hsend

/-- Whoever waits first in line at the outtake queue gets a slot, unless the queue is full. -/
theorem Draining.handing_eases {item : WorkItem} {payload : Payload} {since deadline : Nat}
    {K : CallStage → Prop} (h : Draining p₀ p) (hb : build settings origin = .built p₀)
    (hl : p.Left .emit (.emitter j))
    (hst : p.fetchStage? i = some (.handing item payload since deadline)) : p.Eases K := by
  have hr := h.reaches
  have hline := (hr.lines hb).outtake
  by_cases hfull : p.outtake.messages = []
  · cases hsend : p.outtake.senders with
    | nil =>
      have := (hline.mem_iff (.fetcher i)).mpr ⟨_, hst, rfl⟩
      rw [hsend] at this
      cases this
    | cons t senders =>
      have hslot : p.outtake.hasSlot t = true := by
        simp [Queue.hasSlot, hfull, hsend, hline.capacity, emitQueueSize]
      have hwaits : p.AwaitsOuttake t := (hline.mem_iff t).mp (hsend ▸ List.mem_cons_self)
      cases t with
      | emitter => exact hwaits.elim
      | call n =>
        obtain ⟨s, hn, hs⟩ := hwaits
        cases s with
        | offerInjecting => exact absurd hn ((hr.handshake hb).offer _ _ _ _)
        | checkInjecting =>
          obtain ⟨w, hw, hws⟩ := Option.map_eq_some_iff.mp hst
          cases hws.symm.trans ((hr.handshake hb).fetcher_exited (hr.tracked hb) (hr.staffed hb)
            hn hw)
        | _ => cases hs
      | fetcher k =>
        obtain ⟨u, hu, hs⟩ := hwaits
        obtain ⟨w, hw, rfl⟩ := Option.map_eq_some_iff.mp hu
        cases hws : w.stage with
        | injecting k => exact absurd (hws ▸ hu) ((hr.handshake hb).fetcher _ k)
        | handing item payload since deadline =>
          have hstep : p.step (.proceed (.fetcher k)) = some (({ p with
              outtake := p.outtake.push (.fetcher k) (.data payload) }.record
                (.payloadQueued k payload)).finishItem k w item (.parsed payload) since) := by
            simp [step_fetcher hw, stepFetcher?, hws, hslot]
          exact .inl (h.canAdvance (x := ⟨p.now, .payloadQueued k payload⟩) hstep rfl trivial
            (.refl _) (.trans (.one rfl) unstalled_tryPoll) rfl rfl)
        | _ => rw [hws] at hs; cases hs
  · exact h.outtake_eases hb hl hfull

end Intake

/-- As long as a fetch worker is left, the drain can be brought forward, or somebody can take a
turn. -/
theorem Draining.fetcher_eases (h : Draining p₀ p) (hb : build settings origin = .built p₀)
    (hl : p.Left .fetch (.fetcher i)) : p.Eases p.Yields := by
  have hr := h.reaches
  have hemit := h.emitter_left hb hl
  obtain ⟨w, hw, hne⟩ := h.fetcher_of_left hb hl
  have hst : p.fetchStage? i = some w.stage := by simp [fetchStage?, hw]
  cases hs : w.stage with
  | exited => exact absurd hs hne
  | launched =>
    have hstep : p.step (.proceed (.fetcher i)) = some (p.setFetcher i .creating) := by
      simp [step_fetcher hw, stepFetcher?, hs]
    exact .inr ⟨_, _, ⟨rfl, hstep, rfl, .refl _⟩, toll_setFetcher hst (by simp [hs]), .inl rfl⟩
  | creating =>
    have hstep : p.step (.clientReturns i (.value ())) =
        some ((p.record (.clientCreated i)).queueFetcher i) := by
      simp [step, hw, clientReturned?, hs]
    exact .inl (h.canAdvance hstep rfl rfl (.refl _) (.refl _) rfl rfl)
  | queuing | receiving =>
    obtain ⟨u, held, hasks⟩ := (hr.lockLines hb).intake.exists_holder
      (t := .fetcher i) ⟨_, hst, by simp [hs]⟩
    cases u with
    | emitter | call => exact hasks.elim
    | fetcher k =>
      obtain ⟨u, hu, hasks⟩ := hasks
      exact h.intake_head_eases hb hl hu hasks held
  | processing item since =>
    have hstep : p.step (.processReturns i (.value .crashed)) =
        some ((p.record (.processEnded i item (.value .crashed))).finishItem i w item .crashed
          since) := by
      simp [step, hw, processReturned?, hs, acceptOutcome, Outcome.emittable?]
    exact .inl (h.canAdvance (x := ⟨p.now, .processEnded i item (.value .crashed)⟩) hstep rfl
      (by simp [Return.outcome?]) (.refl _) (.trans (.one rfl) unstalled_tryPoll) rfl rfl)
  | handing => exact h.handing_eases hb hemit (hs ▸ hst)
  | injecting k => exact absurd (hs ▸ hst) ((hr.handshake hb).fetcher i k)

/-- As long as a fetch worker is left, the drain can be brought forward. -/
theorem Draining.canAdvance_of_fetcher (h : Draining p₀ p) (hb : build settings origin = .built p₀)
    (hl : p.Left .fetch (.fetcher i)) : p.CanAdvance := by
  -- a turn that advances nothing takes away from the toll
  induction ht : p.toll using Nat.strongRecOn generalizing p with
  | _ toll ih =>
    rcases h.fetcher_eases hb hl with hc | ⟨a, q, hturn, hlt, -⟩
    · exact hc
    · exact (ih _ (ht ▸ hlt) (h.turn hturn) (hl.turn hturn) rfl).of_turn hturn

section Checks

/-- A check is pending. -/
def Checks (p : Pipeline) : Prop :=
  ∃ n s, (n, s) ∈ p.calls ∧ (s = .checking ∨ ∃ k, s = .checkInjecting k)

/-- All fetch workers have been collected and the outtake queue is empty: a check that polls comes
to the injection. -/
theorem Draining.checking_injects (h : Draining p₀ p) (hb : build settings origin = .built p₀)
    (hgone : p.settings.FetchersIn (p.history.log Event.exit))
    (hl : p.Left .emit (.emitter j)) (hm : p.outtake.messages = [])
    (he : p.tracker.exits = []) (hn : (n, .checking) ∈ p.calls) (hc : CallMove p n .checking q) :
    ∃ k, (n, .checkInjecting k) ∈ q.calls := by
  have hr := h.reaches
  have hcollect : p.collect = (p, none) := by rw [collect, he, collectFrom]
  have hunsent : p.tracker.emitStopSent = false := by
    -- otherwise the signal of the worker that is left would be on the queue
    by_contra hs
    rcases (hr.supplied hb).sent (by simpa using hs) with ⟨x, hx, hxs⟩ | hle
    · cases (h.unstalled x hx).symm.trans hxs
    · exact hr.outtake_ne_nil hb hle hl.mem (hl.alive _) hm
  have hroster := (hr.tracked hb).toRoster
  have hcount : p.tracker.fetchFinished = p.settings.numClients.toNat := by
    refine hroster.fetchFinished_eq (hr.staffed hb) ?_
    rwa [hroster.exits, he, List.append_nil] at hgone
  cases hc with
  | batchAdmitted hlook | batchExpired hlook | batchPaused hlook => cases hlook
  | checked held =>
    have hp := poll_result p (.call n)
    generalize p.poll (.call n) = v at hp
    cases hp with
    | notStarted hs => cases hs.symm.trans (h.started hb)
    | latched _ hf => cases hf.symm.trans (h.failure hb)
    | failed _ _ hq => cases hq.symm.trans hcollect
    | noEmitters _ _ hq hz =>
      cases hq.symm.trans hcollect
      exact absurd hz (Nat.pos_iff_ne_zero.mp (hr.numEmitters_pos hb))
    | active _ _ hq hn =>
      cases hq.symm.trans hcollect
      rcases hn with hn | hn
      · exact absurd hcount hn
      · cases hunsent.symm.trans hn
    | injecting _ _ hq =>
      cases hq.symm.trans hcollect
      exact ⟨_, mem_setCall.mpr (.inl ⟨rfl, rfl, _, hn⟩)⟩

/-- When all fetch workers have ended, a pending check stays pending until the drain is brought
forward. -/
theorem Draining.checks_turn (h : Draining p₀ p) (hb : build settings origin = .built p₀)
    (hgone : p.settings.FetchersIn (p.history.log Event.exit))
    (hl : p.Left .emit (.emitter j)) (hm : p.outtake.messages = []) (hc : p.Checks)
    (hn : (n, s) ∈ p.calls) (hs : p.Yields s) (hmove : CallMove p n s q) : q.Checks := by
  obtain ⟨m, u, hmem, hu⟩ := hc
  by_cases hmn : m = n
  · subst hmn
    obtain rfl := (h.reaches.sections hb).unique hn hmem
    rcases hu with rfl | ⟨k, rfl⟩
    · obtain ⟨k, hk⟩ := h.checking_injects hb hgone hl hm (hs.2 rfl) hn hmove
      exact ⟨m, _, hk, .inr ⟨k, rfl⟩⟩
    · exact absurd hs.1 (by simp)
  · exact ⟨m, u, (hmove.keeps.calls m (by simpa using hmn) u).mpr hmem, hu⟩

/-- When all fetch workers have ended and a check is pending, the drain can be brought forward as
long as an emit worker is left. -/
theorem Draining.canAdvance_of_check (h : Draining p₀ p) (hb : build settings origin = .built p₀)
    (hgone : p.settings.FetchersIn (p.history.log Event.exit))
    (hl : p.Left .emit (.emitter j)) (hc : p.Checks) : p.CanAdvance := by
  induction ht : p.toll using Nat.strongRecOn generalizing p with
  | _ toll ih =>
    have extend {a : Action} {q : Pipeline} (hturn : Turn p a q) (hlt : q.toll < p.toll)
        (hq : q.Checks) : p.CanAdvance := by
      refine (ih _ (ht ▸ hlt) (h.turn hturn) (fun i hi => ?_) (hl.turn hturn) hq rfl).of_turn hturn
      rw [(step_move hturn.step).settings] at hi
      rw [hturn.history.log fun _ => Event.exit_of_not_disturbs]
      exact hgone i hi
    by_cases hm : p.outtake.messages = []
    · obtain ⟨n, s, hn, hs⟩ := hc
      have hasks : p.AsksTracker (.call n) := ⟨s, hn, by rcases hs with rfl | ⟨k, rfl⟩ <;> rfl⟩
      rcases h.tracker_eases hb hl hasks with
        hdone | ⟨a, q, hturn, hlt, hsame | ⟨m, u, hu, hk, hmove⟩⟩
      · exact hdone
      · exact extend hturn hlt ⟨n, s, hsame ▸ hn, hs⟩
      · exact extend hturn hlt (h.checks_turn hb hgone hl hm ⟨n, s, hn, hs⟩ hu hk hmove)
    · obtain ⟨n, s, hn, hs⟩ := hc
      rcases h.outtake_eases (K := fun _ => False) hb hl hm with
        hdone | ⟨a, q, hturn, hlt, hsame | ⟨-, -, -, hk, -⟩⟩
      · exact hdone
      · exact extend hturn hlt ⟨n, s, hsame ▸ hn, hs⟩
      · exact hk.elim

theorem exists_unused (p : Pipeline) : ∃ n, p.callStage? n = none := by
  by_contra hall
  have hsub : List.range (p.calls.length + 1) ⊆ p.calls.map Prod.fst := by
    intro n _
    obtain ⟨s, hs⟩ := Option.ne_none_iff_exists'.mp (not_exists.mp hall n)
    exact List.mem_map_of_mem (f := Prod.fst) (mem_calls_of_callStage? hs)
  have hle := (List.subperm_of_subset List.nodup_range hsub).length_le
  rw [List.length_range, List.length_map] at hle
  omega

/-- When all fetch workers have ended, the drain can be brought forward as long as an emit worker
is left; somebody may have to call for a check. -/
theorem Draining.canAdvance_of_emitter (h : Draining p₀ p) (hb : build settings origin = .built p₀)
    (hgone : p.settings.FetchersIn (p.history.log Event.exit))
    (hl : p.Left .emit (.emitter j)) : p.CanAdvance := by
  by_cases hc : p.Checks
  · exact h.canAdvance_of_check hb hgone hl hc
  · obtain ⟨n, hfree⟩ := p.exists_unused
    have hturn : Turn p (.invoke n .checkActive) (p.invoke n .checkActive) :=
      ⟨rfl, by simp [step, hfree], rfl, .one rfl⟩
    have hpending : (n, .checking) ∈ (p.invoke n .checkActive).calls :=
      mem_addCall.mpr (.inr ⟨rfl, rfl⟩)
    refine ((h.turn hturn).canAdvance_of_check hb (fun i hi => ?_) (hl.turn hturn)
      ⟨n, _, hpending, .inl rfl⟩).of_turn hturn
    rw [hturn.history.log fun _ => Event.exit_of_not_disturbs]
    exact hgone i hi

end Checks

/-- As long as a worker is left, the drain can be brought forward. -/
theorem Draining.canAdvance_of_left (h : Draining p₀ p) (hb : build settings origin = .built p₀)
    (ht : t ∈ p.allWorkers) (hn : ∀ e, (t, e) ∉ p.history.log Event.exit) : p.CanAdvance := by
  by_cases hfetch : ∃ i, p.Left .fetch (.fetcher i)
  · obtain ⟨i, hi⟩ := hfetch
    exact h.canAdvance_of_fetcher hb hi
  · have hgone : p.settings.FetchersIn (p.history.log Event.exit) := by
      intro i hi
      by_contra hf
      refine hfetch ⟨i, by simpa [pool] using hi, fun e he => hf ?_⟩
      exact h.finished hb he ▸ he
    rcases List.mem_append.mp ht with ht | ht
    · obtain ⟨i, hi, rfl⟩ := List.mem_map.mp ht
      exact absurd (hgone i (List.mem_range.mp hi)) (hn _)
    · obtain ⟨j, hj, rfl⟩ := List.mem_map.mp ht
      exact h.canAdvance_of_emitter hb hgone ⟨List.mem_map_of_mem hj, hn⟩

theorem advances_append (new h : History) :
    History.advances (new ++ h) = new.advances + h.advances := List.countP_append

/-- An advance takes away from the work that is left. -/
theorem Reaches.work_lt (h : p₀.Reaches p) (hb : build settings origin = .built p₀)
    (hc : p.stopsClaimed = true) (ha : p.Advances a q) : q.work < p.work := by
  obtain ⟨hs, hi, new, hh, x, hx, hadv, -⟩ := ha
  have hloads : ¬ p.Loads a := by
    cases step_taken hs with
    | @invoke n r => exact absurd rfl (hi n r)
    | @cancel n =>
      -- nothing but the cancellation is recorded
      have hnew : new ++ p.history = [⟨p.now, .cancelled n⟩] ++ p.history := hh.symm
      obtain rfl := List.append_cancel_right hnew
      rw [List.mem_singleton.mp hx] at hadv
      cases hadv
    | _ => exact id
  have hle := h.balance_le hb hc hs hloads
  have hpos : 0 < new.advances := List.countP_pos_iff.mpr ⟨x, hx, hadv⟩
  rw [balance, balance, hh, advances_append] at hle
  omega

/-- Nothing but a new submission, or a check that is given up while it injects, adds to the work
that is left. -/
theorem Reaches.work_le (h : p₀.Reaches p) (hb : build settings origin = .built p₀)
    (hc : p.stopsClaimed = true) (hs : p.step a = some q) (ha : ¬ p.Loads a) : q.work ≤ p.work := by
  have hle := h.balance_le hb hc hs ha
  obtain ⟨new, hnew⟩ := (step_move hs).suffix
  rw [balance, balance, ← hnew, advances_append] at hle
  omega

/-- A drain does not deadlock. The end of the work has been announced and its caller did not give
the announcement up, nothing tears the pipeline down, whatever fails is confined to its item, and
no hand-off reaches its ceiling. Then, as long as a worker is left, tasks can take their turns so
that the drain is brought forward; every such advance takes away from the work that is left, and
no other step adds to it, new submissions and a check that is given up while it injects apart. -/
theorem run_deadlock_free {as : List Action} (h : p.run as = some q)
    (hb : build settings origin = .built p) (hc : ∀ a ∈ as, a.Contained)
    (ht : ∀ x ∈ q.history, x.event.isTeardown = false)
    (hn : ∀ x ∈ q.history, x.event.isStall = false)
    (hmade : q.history.announcement ≠ .unmade) (hkept : q.history.announcement ≠ .abandoned) :
    ((∃ t ∈ q.allWorkers, ∀ e, (t, e) ∉ q.history.log Event.exit) → q.CanAdvance) ∧
      (∀ a r, q.Advances a r → r.work < q.work) ∧
      ∀ a r, q.step a = some r → ¬ q.Loads a → r.work ≤ q.work := by
  have hd : Draining p q := .of_run h hb hc ht hn hmade hkept
  refine ⟨?_, fun a r ha => hd.reaches.work_lt hb (hd.claimed hb) ha,
    fun a r hs ha => hd.reaches.work_le hb (hd.claimed hb) hs ha⟩
  rintro ⟨t, ht, hleft⟩
  exact hd.canAdvance_of_left hb ht hleft

/-- The intake queue is full. Behind a batch that waits for room, the announcement and another
submission wait for the producer lock. -/
def crowdedDrain : List Action :=
  .invoke 0 .start :: List.replicate 4 (.proceed (.call 0)) ++
    [.invoke 1 (.offerBatch [default, default] .endless), .proceed (.call 1),
      .invoke 2 (.offerBatch [default, default] .endless), .proceed (.call 2),
      .invoke 3 .finish, .invoke 4 (.offer default .endless),
      .proceed (.fetcher 0), .clientReturns 0 (.value ()), .proceed (.fetcher 0)]

/-- The drain can be brought forward, for example by the worker that receives an item. That time
passes adds nothing to the work. -/
theorem crowdedDrain_deadlock_free :
    ∃ p q r s, build narrow default = .built p ∧ p.run crowdedDrain = some q ∧
      q.calls.length = 3 ∧ q.history.announcement = .pending 3 ∧ q.CanAdvance ∧
      q.step (.proceed (.fetcher 0)) = some r ∧ r.work < q.work ∧
      q.step (.tick offerPollInterval) = some s ∧ s.work ≤ q.work := by
  obtain ⟨p, q, r, hb, hq, hlength, ha, ht, hn, hw, he, hr, hnew⟩ :
      ∃ p q r, build narrow default = .built p ∧ p.run crowdedDrain = some q ∧
        q.calls.length = 3 ∧ q.history.announcement = .pending 3 ∧
        (∀ x ∈ q.history, x.event.isTeardown = false) ∧
        (∀ x ∈ q.history, x.event.isStall = false) ∧
        .fetcher 0 ∈ q.allWorkers ∧ q.history.log Event.exit = [] ∧
        q.step (.proceed (.fetcher 0)) = some r ∧ r.history =
          [⟨0, .processBegan 0 default⟩, ⟨0, .received 0 (.data default)⟩] ++ q.history :=
    ⟨_, _, _, rfl, rfl, rfl, rfl, by decide, by decide, by decide, rfl, rfl, rfl⟩
  obtain ⟨hleft, hlt, hle⟩ := run_deadlock_free hq hb (by simp [crowdedDrain]) ht hn
    (by simp [ha]) (by simp [ha])
  refine ⟨p, q, r, _, hb, hq, hlength, ha, hleft ⟨_, hw, by simp [he]⟩, hr, ?_, rfl,
    hle (.tick offerPollInterval) _ rfl id⟩
  exact hlt _ r ⟨hr, Action.ne_invoke rfl, _, hnew, ⟨0, .received 0 (.data default)⟩, by simp, rfl,
    fun t e he => absurd he (Event.ne_collected rfl t e)⟩

end Pipeline

end DocumentPipeline
