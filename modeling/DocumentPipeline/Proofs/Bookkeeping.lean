import DocumentPipeline.Proofs.Lifecycle
import DocumentPipeline.Proofs.Signals

/-! # The books of the tracker

Whenever nobody holds the tracker, all workers have been launched or none has, and each of them has
been collected or is still to be collected: it runs, or it has ended and waits for a poll. The
counters of the tracker say how many workers were collected, and how many of each pool had finished.
-/
namespace DocumentPipeline

namespace Event

/-- The worker whose launch the event tells of. -/
@[simp] def launching : Event → List Task
  | launched t => [t]
  | _ => []

theorem launching_of_isTracking {e : Event} (h : e.isTracking = true) : e.launching = [] := by
  cases e <;> simp_all

theorem launching_of_worker? {e : Event} {t : Task} (h : e.worker? = some t) :
    e.launching = [] := by
  cases e <;> simp_all

end Event

theorem CallStage.launching_of_records {s : CallStage} {n : Nat} {e : Event}
    (h : s.records n e) (hs : ∀ c, s ≠ .launching c) : e.launching = [] := by
  cases e with
  | launched t => cases s <;> simp_all
  | _ => rfl

theorem finishers_cons {role : Role} {t : Task} {e : Ending} {l : List (Task × Ending)} :
    finishers role ((t, e) :: l) =
      if e = .finished ∧ t.role? = some role then t :: finishers role l else finishers role l := by
  unfold finishers
  by_cases h : e = .finished ∧ t.role? = some role
  · simp [h]
  · simp [h]

/-- In a log of workers that ended, each has finished in its pool or come to another end. -/
theorem length_eq_finishers {l : List (Task × Ending)} (h : ∀ x ∈ l, x.1.role? ≠ none) :
    l.length = (finishers .fetch l).length + (finishers .emit l).length +
      l.countP fun x => x.2 ≠ .finished := by
  induction l with
  | nil => rfl
  | cons x l ih =>
    obtain ⟨t, e⟩ := x
    obtain ⟨ht, hl⟩ := List.forall_mem_cons.mp h
    rw [List.length_cons, ih hl, finishers_cons, finishers_cons, List.countP_cons]
    by_cases he : e = .finished
    · cases t with
      | fetcher i => simp [he, Task.role?]; omega
      | emitter j => simp [he, Task.role?]; omega
      | call n => exact absurd rfl ht
    · simp [he]; omega

namespace Pipeline

/-- The workers that were launched. -/
def crew (p : Pipeline) : List Task :=
  (List.range p.fetchers.length).map .fetcher ++ (List.range p.emitters.length).map .emitter

instance (p : Pipeline) : DecidablePred p.hasExited
  | .fetcher i => inferInstanceAs (Decidable (p.fetchStage? i = some .exited))
  | .emitter j => inferInstanceAs (Decidable (p.emitStage? j = some .exited))
  | .call _ => inferInstanceAs (Decidable False)

/-- The workers that still run. -/
def running (p : Pipeline) : List Task := p.crew.filter fun t => !decide (p.hasExited t)

/-- The workers that no poll has taken notice of: those that ended, and those that still run. -/
def uncollected (p : Pipeline) : List Task := p.tracker.exits.map Prod.fst ++ p.running

variable {p q p₀ : Pipeline} {i n : Nat} {t : Task} {settings : Settings} {origin : Instant}

theorem mem_crew : t ∈ p.crew ↔ p.isLaunched t := by
  cases t <;> simp [crew, isLaunched]

theorem isLaunched_of_hasExited (h : p.hasExited t) : p.isLaunched t := by
  cases t with
  | fetcher i =>
    obtain ⟨w, hw, -⟩ := Option.map_eq_some_iff.mp h
    exact (List.getElem?_eq_some_iff.mp hw).1
  | emitter j =>
    obtain ⟨w, hw, -⟩ := Option.map_eq_some_iff.mp h
    exact (List.getElem?_eq_some_iff.mp hw).1
  | call n => exact h

theorem Staffed.crew_sublist (h : Staffed p) : p.crew.Sublist p.allWorkers := by
  apply List.Sublist.append
  · exact (List.range_sublist.mpr h.fetchers_le).map _
  · exact (List.range_sublist.mpr h.emitters_le).map _

theorem crew_of_muster (h : q.muster = p.muster) : q.crew = p.crew := by
  simp only [muster, Prod.mk.injEq] at h
  obtain ⟨-, hf, he⟩ := h
  simp [crew, hf, he]

/-! ## Launches -/

theorem launches_endFetcher {w : Fetcher} {e : Ending} :
    (p.endFetcher i w e).history.log Event.launching = p.history.log Event.launching := by
  have hadds : History.Adds (fun e => e.launching = []) p.history (p.endFetcher i w e).history :=
    adds_endFetcher rfl rfl
  exact hadds.log fun _ => id

theorem launches_tryPoll {w : Fetcher} :
    (p.tryPoll i w).history.log Event.launching = p.history.log Event.launching := by
  have hadds : History.Adds (fun e => e.launching = []) p.history (p.tryPoll i w).history :=
    adds_tryPoll (fun _ => Event.launching_of_isTracking) rfl fun _ => rfl
  exact hadds.log fun _ => id

/-- A fetch worker launches nobody. -/
theorem FetcherMove.launches {w : Fetcher} (h : FetcherMove p i w q)
    (hn : ∀ k, w.stage ≠ .injecting k) :
    q.history.log Event.launching = p.history.log Event.launching := by
  cases h with
  | abort | notCreated => exact launches_endFetcher
  | receiveStop | lose | stalled => exact launches_endFetcher.trans (by simp [record])
  | create | acquire => rfl
  | created | receiveItem | handOver =>
    simp [record, acceptMessage, queueFetcher, requestIntake, setFetcher]
  | idle => exact launches_tryPoll
  | settle | handed => exact launches_tryPoll.trans (by simp [record])
  | injected hs => exact absurd hs (hn _)

/-- Only a step of a call that launches workers puts a launch on record. -/
theorem Move.launches (h : Move p q) (hn : ∀ i k, p.fetchStage? i ≠ some (.injecting k)) :
    q.history.log Event.launching = p.history.log Event.launching ∨
      ∃ n c, (n, .launching c) ∈ p.calls ∧ CallMove p n (.launching c) q := by
  cases h with
  | invoke _ hi =>
    have hadds : History.Adds (fun e => e.launching = []) p.history q.history :=
      hi.adds rfl fun _ => rfl
    exact .inl (hadds.log fun _ => id)
  | cancel => exact .inl (by simp [record, release])
  | tick => exact .inl rfl
  | close =>
    refine .inl ?_
    unfold Pipeline.close
    split <;> simp [abortAll, record]
  | drop => exact .inl (by simp [Pipeline.drop, abortAll, record])
  | @call n s q hm hc =>
    by_cases hl : ∃ c, s = .launching c
    · obtain ⟨c, rfl⟩ := hl
      exact .inr ⟨n, c, hm, hc⟩
    · have hs : ∀ c, s ≠ .launching c := fun c hc => hl ⟨c, hc⟩
      exact .inl (hc.records.log fun _ he => CallStage.launching_of_records he hs)
  | @fetcher i w q hw hf =>
    have hst : ∀ k, w.stage ≠ .injecting k := by
      intro k hk
      exact hn i k (by simp [fetchStage?, hw, hk])
    exact .inl (hf.launches hst)
  | emitter hw he => exact .inl (he.records.log fun _ => Event.launching_of_worker?)

/-- Whoever is launched joins the workers there are. -/
theorem CallMove.joins {c : Nat} (h : CallMove p n (.launching c) q) (hs : Staffed p)
    (hm : (n, .launching c) ∈ p.calls) : ∃ new, q.crew = p.crew ++ new ∧
      q.history.log Event.launching = p.history.log Event.launching ++ new := by
  obtain ⟨-, -, hfetchers, hemitters⟩ := hs.launching n c hm
  cases h with
  | opened =>
    refine ⟨[], ?_, ?_⟩
    · simp [crew, reply, release, record]
    · simp [reply, release, record]
  | batchAdmitted hl | batchExpired hl | batchPaused hl => cases hl
  | launchFetcher hlt =>
    refine ⟨[.fetcher c], ?_, ?_⟩
    · have hf : p.fetchers.length = c := by omega
      have he : p.emitters.length = 0 := by omega
      simp [crew, setCall, Pipeline.launch, record, hf, he, List.range_succ]
    · simp [setCall, Pipeline.launch, record]
  | launchEmitter hle =>
    refine ⟨[.emitter (c - p.settings.numClients.toNat)], ?_, ?_⟩
    · simp [crew, setCall, Pipeline.launch, record, hemitters, List.range_succ]
    · simp [setCall, Pipeline.launch, record]

/-- Who joins the workers with a step is on record as launched. -/
theorem Move.joins (h : Move p q) (hs : Staffed p)
    (hn : ∀ i k, p.fetchStage? i ≠ some (.injecting k)) : ∃ new, q.crew = p.crew ++ new ∧
      q.history.log Event.launching = p.history.log Event.launching ++ new := by
  rcases h.muster with hcrew | ⟨n, c, hm, hc⟩
  · rcases h.launches hn with hlog | ⟨n, c, hm, hc⟩
    · exact ⟨[], by simp [crew_of_muster hcrew], by simp [hlog]⟩
    · exact hc.joins hs hm
  · exact hc.joins hs hm

/-- The workers on record as launched are those that there are. -/
theorem Reaches.launches (h : p₀.Reaches p) (hb : build settings origin = .built p₀) :
    p.history.log Event.launching = p.crew := by
  refine h.invariant (I := fun p => p.history.log Event.launching = p.crew) ?_
    fun r s hr ih hm => ?_
  · obtain ⟨-, -, rfl⟩ := build_eq_built hb
    rfl
  · obtain ⟨new, hcrew, hlog⟩ := hm.joins (hr.staffed hb) (hr.handshake hb).fetcher
    rw [hlog, hcrew, ih]

/-- While the tracker is free, the workers are there all together or not at all. -/
theorem Reaches.crew_of_free (h : p₀.Reaches p) (hb : build settings origin = .built p₀)
    (hf : p.trackerLock.isFree = true) : p.crew = if p.started then p.allWorkers else [] := by
  have hs := h.staffed hb
  split
  · next ho =>
    obtain ⟨hfetchers, hemitters⟩ := hs.full ho
    simp [crew, allWorkers, hfetchers, hemitters]
  · next ho =>
    have hidle := (h.sections hb).not_launching_of_free hf
    obtain ⟨hfetchers, hemitters⟩ := hs.idle (by simpa using ho) hidle
    simp [crew, hfetchers, hemitters]

/-! ## Collections -/

/-- The workers on record as ended are those that have come to their end. -/
theorem Reaches.exits_perm (h : p₀.Reaches p) (hb : build settings origin = .built p₀) :
    ((p.history.log Event.exit).map Prod.fst).Perm (p.crew.filter fun t => p.hasExited t) := by
  have hr := (h.tracked hb).toRoster
  have hcrew : p.crew.Nodup := p.allWorkers_nodup.sublist (h.staffed hb).crew_sublist
  refine (List.perm_ext_iff_of_nodup hr.nodup (hcrew.filter _)).mpr fun t => ?_
  rw [List.mem_filter, mem_crew, decide_eq_true_eq]
  constructor
  · intro ht
    obtain ⟨⟨t, e⟩, hm, rfl⟩ := List.mem_map.mp ht
    have hgone := hr.gone t e hm
    exact ⟨isLaunched_of_hasExited hgone, hgone⟩
  · rintro ⟨-, hgone⟩
    obtain ⟨e, he⟩ := h.exit_of_exited hb t hgone
    exact List.mem_map.mpr ⟨(t, e), he, rfl⟩

/-- A worker that was launched has been collected or is to be collected. -/
theorem Reaches.collected_perm (h : p₀.Reaches p) (hb : build settings origin = .built p₀) :
    ((p.history.log Event.collection).map Prod.fst ++ p.uncollected).Perm p.crew := by
  have hr := (h.tracked hb).toRoster
  have hsplit : (p.history.log Event.collection).map Prod.fst ++ p.uncollected =
      (p.history.log Event.exit).map Prod.fst ++ p.running := by
    rw [hr.exits, uncollected, List.map_append, List.append_assoc]
  rw [hsplit]
  exact ((h.exits_perm hb).append_right _).trans (List.filter_append_perm _ _)

/-- No more workers of a pool finish than there are. -/
theorem Roster.finishers_le (role : Role) (h : Roster p) (hs : Staffed p) :
    (finishers role (p.history.log Event.collection)).length ≤ (p.pool role).length := by
  have hsub : finishers role (p.history.log Event.collection) ⊆ p.pool role :=
    h.finishers_subset_pool role hs fun _ => h.mem_exit_of_collection
  have hnodup : (finishers role (p.history.log Event.collection)).Nodup :=
    h.collected_nodup.sublist (finishers_sublist _ _)
  exact (hnodup.subperm hsub).length_le

/-- The counters of the tracker and the workers that they count. -/
structure Bookkeeping (p : Pipeline) : Prop where
  /-- All workers have been launched, each once, or none has. -/
  launched : p.history.log Event.launching = if p.started then p.allWorkers else []
  launched_length : (p.history.log Event.launching).length =
    if p.started then p.settings.totalWorkers else 0
  /-- The tracker knows the pool of each. -/
  enrolled : ∀ t ∈ p.history.log Event.launching,
    ∃ r, t.role? = some r ∧ p.tracker.roles.lookup t = some r
  /-- Each has been collected once, or is to be collected. -/
  collected : ((p.history.log Event.collection).map Prod.fst ++ p.uncollected).Perm
    (p.history.log Event.launching)
  finished : p.tracker.finished = (p.history.log Event.collection).length
  finished_add : p.tracker.finished + p.uncollected.length =
    (p.history.log Event.launching).length
  fetchFinished :
    p.tracker.fetchFinished = (finishers .fetch (p.history.log Event.collection)).length
  fetchFinished_le : p.tracker.fetchFinished ≤ p.settings.numClients.toNat
  emitFinished :
    p.tracker.emitFinished = (finishers .emit (p.history.log Event.collection)).length
  emitFinished_le : p.tracker.emitFinished ≤ p.settings.numEmitters.toNat
  /-- The others were aborted, failed or panicked. -/
  finished_eq : p.tracker.finished = p.tracker.fetchFinished + p.tracker.emitFinished +
    (p.history.log Event.collection).countP fun x => x.2 ≠ .finished
  finished_le : p.tracker.finished ≤ p.settings.totalWorkers

/-- Whenever nobody holds the tracker, its books are in order. -/
theorem Reaches.bookkeeping (h : p₀.Reaches p) (hb : build settings origin = .built p₀)
    (hf : p.trackerLock.isFree = true) : Bookkeeping p := by
  have hr := (h.tracked hb).toRoster
  have hs := h.staffed hb
  have he := h.enrolled hb
  have hlaunches := h.launches hb
  have hcollected := h.collected_perm hb
  have hadd : p.tracker.finished + p.uncollected.length = p.crew.length := by
    have hlen := hcollected.length_eq
    rw [List.length_append, List.length_map] at hlen
    rw [hr.finished, hlen]
  have hpooled : ∀ x ∈ p.history.log Event.collection, x.1.role? ≠ none := by
    rintro ⟨t, e⟩ hm
    obtain ⟨r, ht, -⟩ := he.roleName hr (hr.mem_exit_of_collection hm)
    rw [ht]
    exact Option.some_ne_none r
  constructor
  · rw [hlaunches, h.crew_of_free hb hf]
  · rw [hlaunches, h.crew_of_free hb hf]
    split
    · simp [allWorkers, Settings.totalWorkers]
    · rfl
  · intro t ht
    rw [hlaunches, mem_crew] at ht
    cases t with
    | fetcher i => exact ⟨.fetch, rfl, he.lookup_eq (he.fetchers i ht)⟩
    | emitter j => exact ⟨.emit, rfl, he.lookup_eq (he.emitters j ht)⟩
    | call n => exact ht.elim
  · rw [hlaunches]
    exact hcollected
  · exact hr.finished
  · rw [hlaunches]
    exact hadd
  · exact hr.fetchFinished
  · rw [hr.fetchFinished]
    simpa [pool] using hr.finishers_le .fetch hs
  · exact hr.emitFinished
  · rw [hr.emitFinished]
    simpa [pool] using hr.finishers_le .emit hs
  · rw [hr.finished, hr.fetchFinished, hr.emitFinished]
    exact length_eq_finishers hpooled
  · exact hr.finished_le hs

/-- Two callers launch the workers at the same time. Later a fetch worker finishes, the other one
has no client, and a poll collects both. Then an emit worker is aborted. -/
def contestedLaunch : List Action :=
  .invoke 0 .start :: .invoke 1 .start :: List.replicate 6 (.proceed (.call 0)) ++
    [.proceed (.call 1), .invoke 2 .finish, .proceed (.call 2), .proceed (.call 2),
      .proceed (.call 2),
      .proceed (.fetcher 0), .clientReturns 0 (.value ()), .proceed (.fetcher 0),
      .proceed (.fetcher 0), .proceed (.fetcher 1), .clientReturns 1 (.panic "no client"),
      .invoke 3 .checkActive, .proceed (.call 3), .abort (.emitter 0)]

theorem contestedLaunch_bookkeeping :
    ∃ p q, build paired default = .built p ∧ p.run contestedLaunch = some q ∧
      q.trackerLock.isFree = true ∧ q.tracker.finished = 2 ∧ q.tracker.fetchFinished = 1 ∧
      q.uncollected = [.emitter 0, .emitter 1] ∧ Bookkeeping q := by
  refine ⟨_, _, rfl, rfl, rfl, rfl, rfl, rfl, ?_⟩
  exact Reaches.bookkeeping ⟨contestedLaunch, rfl⟩ (show build paired default = _ from rfl) rfl

end Pipeline

end DocumentPipeline
