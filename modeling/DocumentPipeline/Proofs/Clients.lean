import DocumentPipeline.Proofs.Conclusion
import DocumentPipeline.Proofs.Lines
import DocumentPipeline.Proofs.Signals

/-! # The clients of the fetch workers

A fetch worker obtains one client and gives it back as it ends, however it ends. So the clients that
have not been given back are those of the workers that still run, and a worker that is known to have
ended has none.
-/
namespace DocumentPipeline

namespace Event

/-- The worker that obtains a client. -/
@[simp] def creation : Event → List Nat
  | clientCreated i => [i]
  | _ => []

/-- The worker that gives its client back. -/
@[simp] def release : Event → List Nat
  | clientReleased i => [i]
  | _ => []

/-- Whether a client is obtained or given back. -/
@[simp] def tends : Event → Bool
  | clientCreated _ | clientReleased _ => true
  | _ => false

theorem creation_of_tends {e : Event} (h : e.tends = false) : e.creation = [] := by
  cases e <;> simp_all

theorem release_of_tends {e : Event} (h : e.tends = false) : e.release = [] := by
  cases e <;> simp_all

theorem tends_of_isPolling {e : Event} (h : e.isPolling = true) : e.tends = false := by
  cases e <;> simp_all

theorem count_creation_of_worker? {e : Event} {i : Nat} (h : e.worker? ≠ some (.fetcher i)) :
    e.creation.count i = 0 := by
  cases e <;> simp_all

theorem count_release_of_worker? {e : Event} {i : Nat} (h : e.worker? ≠ some (.fetcher i)) :
    e.release.count i = 0 := by
  cases e <;> simp_all

end Event

theorem CallStage.untended_of_records {s : CallStage} {n : Nat} {e : Event} (h : s.records n e) :
    e.tends = false ∧ e.exit = [] := by
  have hpoll (hp : e.isPolling = true) : e.tends = false ∧ e.exit = [] :=
    ⟨Event.tends_of_isPolling hp, by cases e <;> simp_all⟩
  cases s <;> simp only [records] at h <;> grind [Event.tends, Event.exit]

/-- The workers whose end is on record. -/
def History.ended (h : History) : List Task := (h.log Event.exit).map Prod.fst

theorem History.mem_ended {h : History} {t : Task} :
    t ∈ h.ended ↔ ∃ e, (t, e) ∈ h.log Event.exit := by
  simp [ended]

/-- The number of clients that a fetch worker owns. -/
def FetchStage.clients (s : FetchStage) : Nat := if s.hasClient then 1 else 0

namespace Pipeline

variable {p q : Pipeline} {i n : Nat}

/-- So many clients have been obtained and given back by a fetch worker. -/
structure Leased (i created released : Nat) (h : History) : Prop where
  created : (h.log Event.creation).count i = created
  released : (h.log Event.release).count i = released

/-- What a fetch worker that stands at a stage has done with its client. -/
def Tended (i : Nat) (stage : Option FetchStage) (h : History) : Prop :=
  match stage with
  | none => Leased i 0 0 h
  | some .exited => Leased i 0 0 h ∨ Leased i 1 1 h
  | some s => Leased i s.clients 0 h

namespace Leased

variable {a b : Nat} {h h' : History}

theorem of_adds (ht : Leased i a b h) (ha : History.Adds (fun e => e.tends = false) h h') :
    Leased i a b h' := by
  refine ⟨?_, ?_⟩
  · rw [ha.log fun _ => Event.creation_of_tends]; exact ht.created
  · rw [ha.log fun _ => Event.release_of_tends]; exact ht.released

theorem of_idles (ht : Leased i a b p.history) (h : Idles (.fetcher i) p q) :
    Leased i a b q.history := by
  refine ⟨?_, ?_⟩
  · rw [← ht.created]
    exact h.history.ignored (F := fun h => (h.log Event.creation).count i) fun x h hx => by
      rw [History.log_cons, List.count_append, Event.count_creation_of_worker? hx, Nat.add_zero]
  · rw [← ht.released]
    exact h.history.ignored (F := fun h => (h.log Event.release).count i) fun x h hx => by
      rw [History.log_cons, List.count_append, Event.count_release_of_worker? hx, Nat.add_zero]

theorem create {time : Nat} (ht : Leased i a b h) :
    Leased i (a + 1) b (⟨time, .clientCreated i⟩ :: h) where
  created := by simp [ht.created]
  released := by simp [ht.released]

theorem release (time : Nat) (ht : Leased i a b h) :
    Leased i a (b + 1) (⟨time, .clientReleased i⟩ :: h) where
  created := by simp [ht.created]
  released := by simp [ht.released]

end Leased

namespace Tended

theorem at_stage {s : FetchStage} (hs : q.fetchStage? i = some s) (hx : s ≠ .exited)
    (ht : Leased i s.clients 0 q.history) : Tended i (q.fetchStage? i) q.history := by
  rw [hs]
  cases s <;> first | exact ht | exact absurd rfl hx

theorem leased {s : FetchStage} {h : History} (ht : Tended i (some s) h) (hx : s ≠ .exited) :
    Leased i s.clients 0 h := by
  cases s <;> first | exact ht | exact absurd rfl hx

theorem of_idles (ht : Tended i (p.fetchStage? i) p.history) (h : Idles (.fetcher i) p q) :
    Tended i (q.fetchStage? i) q.history := by
  rcases h.stage i rfl with hs | ⟨hn, hs⟩
  · rw [hs]
    unfold Tended at ht ⊢
    split at ht
    · exact Leased.of_idles ht h
    · exact ht.imp (Leased.of_idles · h) (Leased.of_idles · h)
    · exact Leased.of_idles ht h
  · rw [hn] at ht
    exact at_stage hs (by simp) (Leased.of_idles (p := p) ht h)

/-- Whatever ends a worker, it gives its client back. -/
theorem endFetcher {w : Fetcher} {s : FetchStage} {e : Ending} (hs : p.fetchStage? i = some s)
    (ht : Leased i w.stage.clients 0 p.history) :
    Tended i ((p.endFetcher i w e).fetchStage? i) (p.endFetcher i w e).history := by
  rw [fetchStage?_endFetcher hs]
  unfold FetchStage.clients at ht
  unfold Pipeline.endFetcher
  split at ht
  · next hc =>
    have hended : Leased i 1 1 _ := (ht.release p.now).of_adds
      (.one (x := ⟨p.now, .exited (.fetcher i) e⟩) rfl)
    rw [if_pos hc]
    exact .inr hended
  · next hc =>
    have hended : Leased i 0 0 _ := ht.of_adds (.one (x := ⟨p.now, .exited (.fetcher i) e⟩) rfl)
    rw [if_neg hc]
    exact .inl hended

theorem afterFetcherPoll {w : Fetcher} {s : FetchStage} {v : Pipeline × Verdict}
    (hc : w.stage.clients = 1) (hs : v.1.fetchStage? i = some s) (ht : Leased i 1 0 v.1.history) :
    Tended i ((afterFetcherPoll i w v).fetchStage? i) (afterFetcherPoll i w v).history := by
  obtain ⟨r, v⟩ := v
  cases v with
  | failed e => exact endFetcher hs (hc ▸ ht)
  | active b =>
    exact at_stage (s := .queuing) (fetchStage?_of_setFetcher hs rfl) (by simp) ht
  | injecting k =>
    exact at_stage (s := .injecting k) (fetchStage?_of_setFetcher hs rfl) (by simp) ht

theorem tryPoll {w : Fetcher} {s : FetchStage} (hc : w.stage.clients = 1)
    (hs : p.fetchStage? i = some s) (ht : Leased i 1 0 p.history) :
    Tended i ((p.tryPoll i w).fetchStage? i) (p.tryPoll i w).history := by
  unfold Pipeline.tryPoll
  split
  · have hp : Polled (p.requestTracker (.fetcher i)) ((p.requestTracker (.fetcher i)).poll
        (.fetcher i)).1 := .poll _ _
    refine afterFetcherPoll hc ((hp.fetchStage i).trans hs) (Leased.of_adds (h := p.history) ht ?_)
    exact hp.polling.mono fun _ => Event.tends_of_isPolling
  · exact at_stage (s := .queuing) (fetchStage?_of_setFetcher hs rfl) (by simp) ht

/-- A worker keeps its client from one item to the next. -/
theorem finishItem {w : Fetcher} {s : FetchStage} {item : WorkItem} {o : Outcome} {since : Nat}
    (hc : w.stage.clients = 1) (hs : p.fetchStage? i = some s) (ht : Leased i 1 0 p.history) :
    Tended i ((p.finishItem i w item o since).fetchStage? i)
      (p.finishItem i w item o since).history :=
  tryPoll (p := { p.record _ with totalProcessed := _ }) hc hs (ht.of_adds (.one rfl))

/-- One step of the worker itself. -/
theorem fetcher {w : Fetcher} (ht : Tended i (p.fetchStage? i) p.history)
    (hw : p.fetchers[i]? = some w) (hf : FetcherMove p i w q) :
    Tended i (q.fetchStage? i) q.history := by
  have hst : p.fetchStage? i = some w.stage := by simp [fetchStage?, hw]
  rw [hst] at ht
  have hl := ht.leased hf.not_exited
  cases hf with
  | abort | notCreated => exact endFetcher hst hl
  | create hs =>
    rw [hs] at hl
    exact at_stage (fetchStage?_of_setFetcher hst rfl) (by simp) hl
  | created hs =>
    rw [hs] at hl
    exact at_stage (s := .queuing) (fetchStage?_of_setFetcher hst rfl) (by simp) hl.create
  | acquire hs =>
    rw [hs] at hl
    exact at_stage (fetchStage?_of_setFetcher hst rfl) (by simp) hl
  | receiveStop =>
    exact endFetcher (p := { Pipeline.record _ _ with intakeLock := _ }) hst (hl.of_adds (.one rfl))
  | @receiveItem d item ms hs =>
    rw [hs] at hl
    exact at_stage (s := .processing item p.now) (fetchStage?_of_setFetcher hst rfl) (by simp)
      (hl.of_adds (.trans (.one rfl) (.one rfl)))
  | idle hs =>
    have hc : w.stage.clients = 1 := by rw [hs]; rfl
    exact tryPoll (p := { p with intakeLock := _ }) hc hst (hc ▸ hl)
  | handOver hs =>
    rw [hs] at hl
    exact at_stage (fetchStage?_of_setFetcher hst rfl) (by simp)
      (hl.of_adds (.trans (.one rfl) (.one rfl)))
  | settle hs =>
    have hc : w.stage.clients = 1 := by rw [hs]; rfl
    rw [hc] at hl
    exact finishItem (p := p.record _) hc hst (hl.of_adds (.one rfl))
  | lose => exact endFetcher (p := p.record _) hst (hl.of_adds (.one rfl))
  | handed hs =>
    have hc : w.stage.clients = 1 := by rw [hs]; rfl
    rw [hc] at hl
    exact finishItem (p := Pipeline.record { p with outtake := _ } _) hc hst (hl.of_adds (.one rfl))
  | stalled =>
    exact endFetcher (p := Pipeline.record { p with outtake := _ } _) hst (hl.of_adds (.one rfl))
  | injected hs hi =>
    have hc : w.stage.clients = 1 := by rw [hs]; rfl
    rw [hc] at hl
    have hi := inject?_injected hi
    refine afterFetcherPoll (s := w.stage) hc ?_ ?_
    · rw [← getElem?_fetchStages, (SameStages.injected hi).1, getElem?_fetchStages, hst]
    · exact hl.of_adds (hi.polling.mono fun _ => Event.tends_of_isPolling)

theorem move (ht : Tended i (p.fetchStage? i) p.history) (hm : Move p q) :
    Tended i (q.fetchStage? i) q.history := by
  cases hm with
  | @invoke n r q hn hi =>
    have hinvoked : Idles (.fetcher i) p (p.record (.invoked n r)) := .record (.refl p) (by simp)
    exact (ht.of_idles hinvoked).of_idles hi.idles
  | cancel => exact ht.of_idles (.single rfl rfl (by simp))
  | close => exact ht.of_idles (close_idles p)
  | drop => exact ht.of_idles (drop_idles p)
  | tick => exact ht.of_idles (.silent rfl rfl)
  | call hm hc => exact ht.of_idles hc.idles
  | @fetcher k w q hw hf =>
    by_cases hk : i = k
    · subst hk
      exact ht.fetcher hw hf
    · exact ht.of_idles (hf.idles (by simpa using hk))
  | emitter hw he => exact ht.of_idles (he.idles (by simp))

end Tended

variable {settings : Settings} {origin : Instant}

theorem Reaches.tended (h : p.Reaches q) (hb : build settings origin = .built p) (i : Nat) :
    Tended i (q.fetchStage? i) q.history := by
  refine h.invariant (I := fun r => Tended i (r.fetchStage? i) r.history) ?_ ?_
  · obtain ⟨-, -, rfl⟩ := build_eq_built hb
    exact ⟨rfl, rfl⟩
  · exact fun r s hr ih hm => ih.move hm

/-- A fetch worker obtains one client at most, and has given it back if and only if it has ended. -/
theorem Reaches.leased (h : p.Reaches q) (hb : build settings origin = .built p) (i : Nat) :
    ∃ k ≤ 1, Leased i k (if .fetcher i ∈ q.history.ended then k else 0) q.history ∧
      (k = 1 → i < q.settings.numClients.toNat) := by
  have ht := h.tended hb i
  have hgone (hx : q.fetchStage? i ≠ some .exited) : .fetcher i ∉ q.history.ended := by
    rw [History.mem_ended]
    rintro ⟨e, he⟩
    exact hx ((h.tracked hb).gone _ _ he)
  cases hs : q.fetchStage? i with
  | none =>
    rw [hs] at ht hgone
    simp only [hgone (by simp), if_false]
    exact ⟨0, Nat.zero_le _, ht, by simp⟩
  | some s =>
    have hlt : i < q.settings.numClients.toNat := by
      rw [← getElem?_fetchStages] at hs
      have hlen := (List.getElem?_eq_some_iff.mp hs).1
      rw [fetchStages, List.length_map] at hlen
      exact Nat.lt_of_lt_of_le hlen (h.staffed hb).fetchers_le
    rw [hs] at ht hgone
    by_cases hx : s = .exited
    · subst hx
      simp only [History.mem_ended.mpr (h.exit_of_exited hb (.fetcher i) hs), if_true]
      rcases ht with hl | hl
      · exact ⟨0, Nat.zero_le _, hl, fun _ => hlt⟩
      · exact ⟨1, Nat.le_refl _, hl, fun _ => hlt⟩
    · simp only [hgone (by simpa using hx), if_false]
      refine ⟨s.clients, ?_, ht.leased hx, fun _ => hlt⟩
      unfold FetchStage.clients
      split <;> omega

theorem Reaches.created_once (h : p.Reaches q) (hb : build settings origin = .built p) :
    (q.history.log Event.creation).Nodup := by
  rw [List.nodup_iff_count_le_one]
  intro i
  obtain ⟨k, hk, hl, -⟩ := h.leased hb i
  rwa [hl.created]

theorem Reaches.lt_of_created (h : p.Reaches q) (hb : build settings origin = .built p)
    (hi : i ∈ q.history.log Event.creation) : i < q.settings.numClients.toNat := by
  obtain ⟨k, hk, hl, hlt⟩ := h.leased hb i
  have hpos := List.count_pos_iff.mpr hi
  rw [hl.created] at hpos
  exact hlt (by omega)

theorem Reaches.released_perm (h : p.Reaches q) (hb : build settings origin = .built p) :
    (q.history.log Event.release).Perm
      ((q.history.log Event.creation).filter fun i => .fetcher i ∈ q.history.ended) := by
  rw [List.perm_iff_count]
  intro i
  obtain ⟨k, hk, hl, -⟩ := h.leased hb i
  rw [hl.released]
  split
  · next he => rw [List.count_filter (by simpa using he), hl.created]
  · next he =>
    refine (List.count_eq_zero.mpr fun hm => he ?_).symm
    simpa using (List.mem_filter.mp hm).2

/-- Once all fetch workers have ended, no client is left. -/
theorem Reaches.released_of_ended (h : p.Reaches q) (hb : build settings origin = .built p)
    (he : ∀ i < q.settings.numClients.toNat, .fetcher i ∈ q.history.ended) :
    (q.history.log Event.release).Perm (q.history.log Event.creation) := by
  have hall : (q.history.log Event.creation).filter (fun i => .fetcher i ∈ q.history.ended) =
      q.history.log Event.creation := by
    rw [List.filter_eq_self]
    intro i hi
    simpa using he i (h.lt_of_created hb hi)
  rw [← hall]
  exact h.released_perm hb

theorem Reaches.left_length (h : p.Reaches q) (hb : build settings origin = .built p) :
    (q.history.log Event.creation).length = (q.history.log Event.release).length +
      ((List.range q.settings.numClients.toNat).filter fun i =>
        i ∈ q.history.log Event.creation ∧ .fetcher i ∉ q.history.ended).length := by
  have hleft : ((List.range q.settings.numClients.toNat).filter fun i =>
      i ∈ q.history.log Event.creation ∧ .fetcher i ∉ q.history.ended).Perm
        ((q.history.log Event.creation).filter fun i => .fetcher i ∉ q.history.ended) := by
    refine (List.perm_ext_iff_of_nodup (List.nodup_range.filter _)
      ((h.created_once hb).filter _)).mpr fun i => ?_
    have := h.lt_of_created hb (i := i)
    simp only [List.mem_filter, List.mem_range, decide_eq_true_eq]
    tauto
  rw [hleft.length_eq, (h.released_perm hb).length_eq,
    List.length_eq_length_filter_add fun i => .fetcher i ∈ q.history.ended]
  simp

/-- When a call is answered after all fetch workers have ended, no client is left. -/
def AllBack (workers : Nat) : Event → History → Prop
  | .replied _ _, past => (∀ i < workers, .fetcher i ∈ past.ended) →
    (past.log Event.release).Perm (past.log Event.creation)
  | _, _ => True

theorem Reaches.allBack (h : p.Reaches q) (hb : build settings origin = .built p) :
    History.Each (AllBack p.settings.numClients.toNat) q.history := by
  refine h.invariant (I := fun r => History.Each (AllBack p.settings.numClients.toNat) r.history)
    ?_ fun r s hr ih hm => ?_
  · obtain ⟨-, -, rfl⟩ := build_eq_built hb
    trivial
  -- a call that is answered has done nothing but poll in the same step
  have answered {P : Event → Prop} (ha : History.Adds P r.history s.history)
      (hP : ∀ e, P e → e.tends = false ∧ e.exit = []) :
      History.Each (AllBack p.settings.numClients.toNat) s.history := by
    refine ha.each_between (fun e g he hg hs => ?_) ih
    have hkept := (ha.split hg hs).1
    unfold AllBack
    split
    · intro hall
      rw [hkept.log fun e he => Event.creation_of_tends (hP e he).1,
        hkept.log fun e he => Event.release_of_tends (hP e he).1]
      refine hr.released_of_ended hb fun i hi => ?_
      rw [hr.settings] at hi
      have hended := hall i hi
      rwa [History.ended, hkept.log fun e he => (hP e he).2] at hended
    · trivial
  have unanswered (ha : History.Adds (fun e => e.isCalling = false) r.history s.history) :
      History.Each (AllBack p.settings.numClients.toNat) s.history := by
    refine ha.each (fun e g he => ?_) ih
    cases e <;> trivial
  cases hm with
  | @invoke n request q hn hi =>
    refine answered (P := fun e => e = .invoked n request ∨ ∃ a, e = .replied n a) ?_ ?_
    · exact hi.adds (.inl rfl) fun a => .inr ⟨a, rfl⟩
    · rintro e (rfl | ⟨a, rfl⟩) <;> exact ⟨rfl, rfl⟩
  | cancel => exact ⟨trivial, ih⟩
  | close => exact unanswered (CallsKept.close r).history
  | drop => exact unanswered (CallsKept.drop r).history
  | tick => exact ih
  | call hm hc => exact answered hc.records fun e he => CallStage.untended_of_records he
  | fetcher hw hf => exact unanswered hf.callsKept.history
  | emitter hw he => exact unanswered he.callsKept.history

/-- What has become of the clients. -/
structure ClientsTended (p : Pipeline) : Prop where
  created_once : (p.history.log Event.creation).Nodup
  created_le : (p.history.log Event.creation).length ≤ p.settings.numClients.toNat
  released_le : (p.history.log Event.release).length ≤ (p.history.log Event.creation).length
  /-- The workers that have ended have given their clients back, each of them once. -/
  released : (p.history.log Event.release).Perm
    ((p.history.log Event.creation).filter fun i => .fetcher i ∈ p.history.ended)
  /-- The clients that are left are those of the workers that have not ended. -/
  left : (p.history.log Event.creation).length = (p.history.log Event.release).length +
    ((List.range p.settings.numClients.toNat).filter fun i =>
      i ∈ p.history.log Event.creation ∧ .fetcher i ∉ p.history.ended).length
  /-- No client is left when a check says that no worker is running. -/
  checked : ∀ (later past : History) (time n : Nat),
    p.history = later ++ ⟨time, .replied n (.active (.ok false))⟩ :: past →
      (past.log Event.release).Perm (past.log Event.creation)

/-- Every client is given back once: by the worker that obtained it, whatever ends that worker, and
before a check can say that no worker is running. -/
theorem Reaches.clients_released (h : p.Reaches q) (hb : build settings origin = .built p) :
    ClientsTended q where
  created_once := h.created_once hb
  created_le := by
    have hsub : q.history.log Event.creation ⊆ List.range q.settings.numClients.toNat :=
      fun i hi => List.mem_range.mpr (h.lt_of_created hb hi)
    have hle := ((h.created_once hb).subperm hsub).length_le
    rwa [List.length_range] at hle
  released_le := by
    rw [(h.released_perm hb).length_eq]
    exact List.length_filter_le _ _
  released := h.released_perm hb
  left := h.left_length hb
  checked later past time n hv := by
    have hsuffix : ⟨time, .replied n (.active (.ok false))⟩ :: past <:+ q.history :=
      ⟨later, hv.symm⟩
    have hback : AllBack p.settings.numClients.toNat (.replied n (.active (.ok false))) past :=
      (h.allBack hb).of_suffix hsuffix
    refine hback fun i hi => ?_
    have hworker : .fetcher i ∈ q.allWorkers := by
      rw [← h.settings] at hi
      simpa [allWorkers] using hi
    have hvouched : Vouched q.allWorkers (.replied n (.active (.ok false))) past :=
      (h.concluding hb).vouched.of_suffix hsuffix
    obtain ⟨e, he, -⟩ := hvouched _ hworker
    exact History.mem_ended.mpr ⟨e, he⟩

/-- One client has been created and another one is being created when the pipeline is closed. All
workers end, and a check finds none running. -/
def closedWhileCreating : List Action :=
  .invoke 0 .start :: List.replicate 6 (.proceed (.call 0)) ++
    [.proceed (.fetcher 0), .clientReturns 0 (.value ()), .proceed (.fetcher 1), .close,
      .abort (.fetcher 0), .abort (.fetcher 1), .abort (.emitter 0), .abort (.emitter 1),
      .invoke 1 .checkActive, .proceed (.call 1)]

theorem closedWhileCreating_released :
    ∃ p q, build paired default = .built p ∧ p.run closedWhileCreating = some q ∧
      q.history.log Event.creation = [0] ∧ q.history.log Event.release = [0] ∧
      (∃ (past : History) (time n : Nat),
        q.history = ⟨time, .replied n (.active (.ok false))⟩ :: past) ∧ ClientsTended q := by
  refine ⟨_, _, rfl, rfl, rfl, rfl, ⟨_, _, _, rfl⟩, ?_⟩
  exact Reaches.clients_released ⟨closedWhileCreating, rfl⟩
    (show build paired default = _ from rfl)

end Pipeline

end DocumentPipeline
