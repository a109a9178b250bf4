import DocumentPipeline.Proofs.LockLines

/-! # Batches that wait

A batch that waits fits into the intake queue once that is empty, and while it pauses, it looks
again for room within the poll interval.
-/
namespace DocumentPipeline

/-- At this stage, a batch fits into a queue of this size and looks for room in time. -/
@[simp] def CallStage.Timely (size now : Nat) : CallStage → Prop
  | batching items _ => items.length ≤ size
  | pausing items wake _ => items.length ≤ size ∧ wake ≤ now + offerPollInterval
  | _ => True

theorem CallStage.Timely.mono {size now later : Nat} {s : CallStage} (h : s.Timely size now)
    (hl : now ≤ later) : s.Timely size later := by
  cases s with
  | pausing items wake deadline => exact ⟨h.1, Nat.le_trans h.2 (Nat.add_le_add_right hl _)⟩
  | _ => exact h

namespace Pipeline

variable {p q p₀ : Pipeline} {i j n : Nat} {t : Task} {s u : CallStage} {settings : Settings}
  {origin : Instant}

section Clock

theorem now_injected {k : Injection} {v : Pipeline × Verdict} (h : Injected p t k v) :
    v.1.now = p.now := by
  cases h with
  | last | next => rfl
  | stalled _ _ hq => subst hq; rfl

theorem now_afterOfferPoll {item : WorkItem} {wait : Wait} {v : Pipeline × Verdict} :
    (afterOfferPoll n item wait v).now = v.1.now := by
  obtain ⟨q, v⟩ := v
  cases v <;> rfl

theorem now_afterCheckPoll {v : Pipeline × Verdict} : (afterCheckPoll n v).now = v.1.now := by
  obtain ⟨q, v⟩ := v
  cases v <;> rfl

theorem now_endFetcher {w : Fetcher} {e : Ending} : (p.endFetcher i w e).now = p.now := by
  unfold endFetcher
  dsimp only
  split <;> rfl

theorem now_afterFetcherPoll {w : Fetcher} {v : Pipeline × Verdict} :
    (afterFetcherPoll i w v).now = v.1.now := by
  obtain ⟨q, v⟩ := v
  cases v with
  | failed e => exact now_endFetcher
  | active | injecting => rfl

theorem now_tryPoll {w : Fetcher} : (p.tryPoll i w).now = p.now := by
  unfold tryPoll
  dsimp only
  split
  · exact now_afterFetcherPoll.trans (Polled.poll _ _).now
  · rfl

theorem CallMove.now (h : CallMove p n s q) : q.now = p.now := by
  cases h with
  | offerPolled => exact now_afterOfferPoll.trans (Polled.poll _ _).now
  | offerInjected hi => exact now_afterOfferPoll.trans (now_injected (inject?_injected hi))
  | checked => exact now_afterCheckPoll.trans (Polled.poll _ _).now
  | checkInjected hi => exact now_afterCheckPoll.trans (now_injected (inject?_injected hi))
  | _ => rfl

theorem FetcherMove.now {w : Fetcher} (h : FetcherMove p i w q) : q.now = p.now := by
  cases h with
  | abort | notCreated | receiveStop | lose | stalled => exact now_endFetcher
  | create | created | acquire | receiveItem | handOver => rfl
  | idle | settle | handed => exact now_tryPoll
  | injected _ hi => exact now_afterFetcherPoll.trans (now_injected (inject?_injected hi))

/-- The clock never goes back. -/
theorem Move.now_le (h : Move p q) : p.now ≤ q.now := by
  cases h with
  | invoke _ hi => cases hi <;> exact Nat.le_refl _
  | cancel | drop => exact Nat.le_refl _
  | close =>
    unfold Pipeline.close
    split <;> exact Nat.le_refl _
  | tick => exact Nat.le_add_right _ _
  | call _ hc => exact Nat.le_of_eq hc.now.symm
  | fetcher _ hf => exact Nat.le_of_eq hf.now.symm
  | emitter _ he => cases he <;> exact Nat.le_refl _

end Clock

/-- A batch that has looked for room in vain looks again in time. -/
theorem timely_testBatch {items : List WorkItem} {deadline : Option Nat} {size : Nat}
    (hl : items.length ≤ size) (hu : (n, u) ∈ (p.testBatch n items deadline).calls) :
    u.Timely size p.now := by
  have paused (r : Pipeline) (hr : r.now = p.now)
      (hu : (n, u) ∈ (r.pauseBatch n items deadline).calls) : u.Timely size p.now := by
    unfold pauseBatch at hu
    split at hu
    · obtain rfl := stage_of_setCall hu
      exact ⟨hl, hr ▸ Nat.le_refl _⟩
    · split at hu
      · exact absurd hu not_mem_reply
      · obtain rfl := stage_of_setCall hu
        exact ⟨hl, hr ▸ Nat.add_le_add_left (Nat.min_le_left _ _) _⟩
  unfold testBatch at hu
  dsimp only at hu
  split at hu
  · split at hu
    · exact absurd hu not_mem_reply
    · exact paused (p.record _) rfl hu
  · exact paused (p.record _) rfl hu

/-- Only a batch comes to wait as a batch. -/
theorem timely_of_leadsTo {size now : Nat} (h : s.leadsTo u = true)
    (hs : ∀ items wake deadline, u ≠ .pausing items wake deadline) : u.Timely size now := by
  cases u with
  | batching => cases s <;> cases h
  | pausing => exact absurd rfl (hs _ _ _)
  | _ => trivial

theorem timely_stepCall? (hs : p.stepCall? n s = some q)
    (h : s.Timely p.settings.queueSize.toNat p.now) (hu : (n, u) ∈ q.calls) :
    u.Timely p.settings.queueSize.toNat p.now := by
  have hleads := (stepCall?_move hs).leadsTo hu
  cases s with
  | batching items wait =>
    simp only [stepCall?, Option.ite_none_right_eq_some, Option.some.injEq] at hs
    obtain ⟨-, rfl⟩ := hs
    split at hu
    · exact absurd hu not_mem_reply
    · exact timely_testBatch h hu
  | pausing items wake deadline =>
    simp only [stepCall?, Option.ite_none_right_eq_some, Option.some.injEq] at hs
    obtain ⟨-, rfl⟩ := hs
    exact timely_testBatch h.1 hu
  | _ => exact timely_of_leadsTo hleads fun _ _ _ he => by subst he; cases hleads

/-- A batch that begins to wait fits into the queue. -/
theorem timely_invocation {r : Request} {size now : Nat} (h : Invocation p n r q)
    (hp : (n, u) ∈ p.calls → u.Timely size now) (hsize : size = p.settings.queueSize.toNat)
    (hu : (n, u) ∈ q.calls) : u.Timely size now := by
  cases h with
  | start | check | status | offer | finish =>
    rcases mem_addCall.mp hu with hu | ⟨-, rfl⟩
    · exact hp hu
    · trivial
  | batch _ _ hl =>
    rcases mem_addCall.mp hu with hu | ⟨-, rfl⟩
    · exact hp hu
    · exact hsize ▸ hl
  | batchRefused | batchTooLarge | batchEmpty | finishEarly | finishLate | finishAgain =>
    exact absurd hu not_mem_reply

/-- Every batch that waits fits into an empty queue and looks for room in time. -/
theorem Reaches.timely (h : p₀.Reaches p) (hb : build settings origin = .built p₀) :
    ∀ n s, (n, s) ∈ p.calls → s.Timely p.settings.queueSize.toNat p.now := by
  obtain ⟨as, has⟩ := h
  refine run_induction (I := fun _ p => ∀ n s, (n, s) ∈ p.calls →
    s.Timely p.settings.queueSize.toNat p.now) has ?_ fun as a r q hr ih hs n u hu => ?_
  · obtain ⟨-, -, rfl⟩ := build_eq_built hb
    nofun
  have hm := step_move hs
  have kept (hr : (n, u) ∈ r.calls) : u.Timely q.settings.queueSize.toNat q.now := by
    rw [hm.settings]
    exact (ih n u hr).mono hm.now_le
  cases step_taken hs with
  | @invoke m request =>
    have hi := invoke_move r m request
    by_cases hmn : n = m
    · subst hmn
      exact timely_invocation hi kept (congrArg (·.queueSize.toNat) hm.settings) hu
    · exact kept ((hi.keeps.calls n (by simpa using hmn) u).mp hu)
  | cancel => exact kept (List.mem_filter.mp hu).1
  | close => exact kept ((CallsKept.close r).calls ▸ hu)
  | drop | tick => exact kept hu
  | @call m s _ hstage hs =>
    have hc := stepCall?_move hs
    by_cases hmn : n = m
    · subst hmn
      rw [hc.settings, hc.now]
      exact timely_stepCall? hs (ih n s hstage) hu
    · exact kept ((hc.keeps.calls n (by simpa using hmn) u).mp hu)
  | fetcher _ hs => exact kept ((stepFetcher?_move hs).callsKept.calls ▸ hu)
  | emitter _ hs => exact kept ((stepEmitter?_move hs).callsKept.calls ▸ hu)
  | abortFetcher _ hs => exact kept ((abortFetcher?_move hs).callsKept.calls ▸ hu)
  | abortEmitter _ hs => exact kept ((abortEmitter?_move hs).callsKept.calls ▸ hu)
  | clientReturns _ hs => exact kept ((clientReturned?_move hs).callsKept.calls ▸ hu)
  | processReturns _ hs => exact kept ((processReturned?_move hs).callsKept.calls ▸ hu)
  | emitReturns _ hs => exact kept ((emitReturned?_move hs).callsKept.calls ▸ hu)

end Pipeline

end DocumentPipeline
