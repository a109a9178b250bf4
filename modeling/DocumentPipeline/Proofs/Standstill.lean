import DocumentPipeline.Proofs.Progress

/-! # Drains that stand still

A pipeline is dormant when every worker waits for a message and nothing is on its way to one.
Then no turn of a task brings it forward, and it stays dormant. A drain comes to this when its
announcement is given up: no later announcement sends the signals that are missing.
-/
namespace DocumentPipeline

@[simp] def FetchStage.isListening : FetchStage → Bool
  | queuing | receiving _ => true
  | _ => false

@[simp] def EmitStage.isListening : EmitStage → Bool
  | queuing | receiving => true
  | _ => false

theorem forall_mem_modify {α : Type} {P : α → Prop} {l : List α} {f : α → α} {i : Nat}
    (h : ∀ a ∈ l, P a) (hf : ∀ a, P a → P (f a)) : ∀ a ∈ l.modify i f, P a := by
  intro a ha
  obtain ⟨k, hk⟩ := List.mem_iff_getElem?.mp ha
  rw [List.getElem?_modify] at hk
  obtain ⟨b, hb, rfl⟩ := Option.map_eq_some_iff.mp hk
  have hold := h b (List.mem_of_getElem? hb)
  split
  · exact hf b hold
  · exact hold

namespace Pipeline

/-- Every worker waits for a message, the queues are empty, and nobody but checks is calling. Not
all fetch workers have been seen to finish, so that the checks send no signals. -/
structure Dormant (p : Pipeline) : Prop where
  started : p.started = true
  healthy : p.tracker.failure = none
  collected : p.tracker.exits = []
  unfinished : p.tracker.fetchFinished ≠ p.settings.numClients.toNat
  intake : p.intake.messages = []
  outtake : p.outtake.messages = []
  fetchers : ∀ w ∈ p.fetchers, w.stage.isListening = true ∧ w.abortRequested = false
  emitters : ∀ w ∈ p.emitters, w.stage.isListening = true ∧ w.abortRequested = false
  calls : ∀ c ∈ p.calls, c.2 = .checking

namespace Dormant

variable {p q : Pipeline} {i j n : Nat} {t : Task} {a : Action}

theorem poll (h : Dormant p) :
    p.poll t = (p, .active (p.tracker.finished ≠ p.settings.totalWorkers)) := by
  simp [Pipeline.poll, collect, collectFrom, h.started, h.healthy, h.collected, h.unfinished]

theorem setFetcher {s : FetchStage} (h : Dormant p) (hs : s.isListening = true) :
    Dormant (p.setFetcher i s) :=
  { h with fetchers := forall_mem_modify h.fetchers fun _ hw => ⟨hs, hw.2⟩ }

theorem setEmitter {s : EmitStage} (h : Dormant p) (hs : s.isListening = true) :
    Dormant (p.setEmitter j s) :=
  { h with emitters := forall_mem_modify h.emitters fun _ hw => ⟨hs, hw.2⟩ }

/-- A fetch worker only passes the lock of the queue around. -/
theorem fetcher {w : Fetcher} (h : Dormant p) (hw : p.fetchers[i]? = some w)
    (hf : FetcherMove p i w q) : Dormant q ∧ q.history = p.history := by
  obtain ⟨hl, ha⟩ := h.fetchers w (List.mem_of_getElem? hw)
  have hm := h.intake
  cases hf with
  | acquire => exact ⟨h.setFetcher rfl, rfl⟩
  | idle =>
    have hp : Dormant { p with intakeLock := p.intakeLock.release (.fetcher i) } := { h with }
    unfold tryPoll
    split
    · have hr : Dormant ({ p with intakeLock := p.intakeLock.release (.fetcher i) }.requestTracker
        (.fetcher i)) := { h with }
      dsimp only
      rw [hr.poll]
      exact ⟨{ hr.setFetcher rfl with }, rfl⟩
    · exact ⟨{ hp.setFetcher rfl with }, rfl⟩
  | _ => simp_all

/-- An emit worker only takes the lock of the queue. -/
theorem emitter {w : EmitWorker} (h : Dormant p) (hw : p.emitters[j]? = some w)
    (he : EmitterMove p j w q) : Dormant q ∧ q.history = p.history := by
  obtain ⟨hl, ha⟩ := h.emitters w (List.mem_of_getElem? hw)
  have hm := h.outtake
  cases he with
  | acquire => exact ⟨h.setEmitter rfl, rfl⟩
  | _ => simp_all

/-- A check is told that workers are running. -/
theorem call {s : CallStage} (h : Dormant p) (hm : (n, s) ∈ p.calls) (hc : CallMove p n s q) :
    Dormant q ∧ q.history.advances = p.history.advances := by
  obtain rfl : s = .checking := h.calls (n, s) hm
  cases hc with
  | batchAdmitted hl | batchExpired hl | batchPaused hl => cases hl
  | checked =>
    rw [h.poll]
    exact ⟨{ h with calls := fun c hc => h.calls c (mem_reply.mp hc).2 },
      History.advances_cons _ _⟩

theorem turn (h : Dormant p) (hs : p.step a = some q) (ha : a.isTurn = true) : Dormant q := by
  cases step_taken hs with
  | @invoke n r =>
    cases r with
    | checkActive =>
      exact { h with calls := fun c hc => (mem_addCall.mp hc).elim (h.calls c) (·.2) }
    | _ => cases ha
  | tick => exact { h with }
  | fetcher hw hs => exact (h.fetcher hw (stepFetcher?_move hs)).1
  | emitter hw hs => exact (h.emitter hw (stepEmitter?_move hs)).1
  | call hm hs => exact (h.call hm (stepCall?_move hs)).1
  | cancel | close | drop | abortFetcher | abortEmitter | clientReturns | processReturns
  | emitReturns => cases ha

theorem run {as : List Action} (h : Dormant p) (hr : p.run as = some q)
    (ha : ∀ a ∈ as, a.isTurn = true) : Dormant q := by
  induction as generalizing p with
  | nil => cases hr; exact h
  | cons a as ih =>
    obtain ⟨r, hs, hr⟩ := Option.bind_eq_some_iff.mp hr
    exact ih (h.turn hs (ha a List.mem_cons_self)) hr
      fun b hb => ha b (List.mem_cons_of_mem _ hb)

/-- No step but a new call brings anything forward. -/
theorem advances_eq (h : Dormant p) (hs : p.step a = some q) (hi : ∀ n r, a ≠ .invoke n r) :
    q.history.advances = p.history.advances := by
  cases step_taken hs with
  | @invoke n r => exact absurd rfl (hi n r)
  | cancel | drop => exact History.advances_cons _ _
  | close =>
    rw [Pipeline.close]
    split <;> exact History.advances_cons _ _
  | tick => rfl
  | call hm hs => exact (h.call hm (stepCall?_move hs)).2
  | fetcher hw hs => rw [(h.fetcher hw (stepFetcher?_move hs)).2]
  | emitter hw hs => rw [(h.emitter hw (stepEmitter?_move hs)).2]
  | abortFetcher hw hs => rw [(h.fetcher hw (abortFetcher?_move hs)).2]
  | abortEmitter hw hs => rw [(h.emitter hw (abortEmitter?_move hs)).2]
  | clientReturns hw hs => rw [(h.fetcher hw (clientReturned?_move hs)).2]
  | processReturns hw hs => rw [(h.fetcher hw (processReturned?_move hs)).2]
  | emitReturns hw hs => rw [(h.emitter hw (emitReturned?_move hs)).2]

/-- Whatever turns the tasks of a dormant pipeline take, nothing is brought forward. -/
theorem not_canAdvance (h : Dormant p) : ¬ p.CanAdvance := by
  rintro ⟨turns, q, a, r, hturns, hrun, -, -, ⟨hs, hi, new, hh, x, hx, hadv, -⟩, -⟩
  have heq := (h.run hrun hturns).advances_eq hs hi
  have hpos : 0 < new.advances := List.countP_pos_iff.mpr ⟨x, hx, hadv⟩
  rw [hh, advances_append] at heq
  omega

end Dormant

/-- A worker is busy and the queue is full, and the announcement waits for its slot. It is given
up, and made again. Then the worker comes to the end of what was submitted. -/
def desertedDrain : List Action :=
  .invoke 0 .start :: List.replicate 4 (.proceed (.call 0)) ++
    [.proceed (.fetcher 0), .clientReturns 0 (.value ()), .proceed (.fetcher 0),
      .proceed (.emitter 0), .proceed (.emitter 0),
      .invoke 1 (.offer default .endless), .proceed (.call 1), .proceed (.call 1),
      .proceed (.call 1), .proceed (.fetcher 0),
      .invoke 2 (.offer default .endless), .proceed (.call 2), .proceed (.call 2),
      .proceed (.call 2), .invoke 3 .finish, .proceed (.call 3), .cancel 3, .invoke 4 .finish,
      .processReturns 0 (.value .crashed), .proceed (.fetcher 0), .proceed (.fetcher 0),
      .processReturns 0 (.value .crashed)]

/-- The announcement that was made again has succeeded, no worker has ended, and nothing can be
brought forward. -/
theorem desertedDrain_stuck :
    ∃ p q, build tight default = .built p ∧ p.run desertedDrain = some q ∧
      (∀ a ∈ desertedDrain, a.Contained) ∧
      (∀ x ∈ q.history, x.event.isTeardown = false) ∧
      (∀ x ∈ q.history, x.event.isStall = false) ∧
      (∃ x ∈ q.history, x.event = .replied 4 (.finished (.ok ()))) ∧
      q.allWorkers = [.fetcher 0, .emitter 0] ∧ q.history.log Event.exit = [] ∧
      ¬ q.CanAdvance := by
  obtain ⟨p, q, hb, hq, ht, hn, hr, hw, he, hd⟩ :
      ∃ p q, build tight default = .built p ∧ p.run desertedDrain = some q ∧
        (∀ x ∈ q.history, x.event.isTeardown = false) ∧
        (∀ x ∈ q.history, x.event.isStall = false) ∧
        (∃ x ∈ q.history, x.event = .replied 4 (.finished (.ok ()))) ∧
        q.allWorkers = [.fetcher 0, .emitter 0] ∧ q.history.log Event.exit = [] ∧
        Dormant q := by
    refine ⟨_, _, rfl, rfl, by decide, by decide, ?_, rfl, rfl, ?_⟩
    · exact ⟨⟨0, _⟩, List.mem_of_getElem? (i := 6) rfl, rfl⟩
    · constructor <;> decide
  exact ⟨p, q, hb, hq, by simp [desertedDrain, Return.outcome?], ht, hn, hr, hw, he,
    hd.not_canAdvance⟩

end Pipeline

end DocumentPipeline
