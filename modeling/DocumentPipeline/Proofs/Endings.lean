import DocumentPipeline.Proofs.Handoffs

/-! # Why workers end

A worker ends when it is told to stop or asked to abort, when a collaborator fails it, when its
payload finds no slot, or when its poll meets a failure. What is said of a worker that failed
names its pool: the tracker knows every worker that was launched.
-/
namespace DocumentPipeline

namespace Ending

/-- Whether the worker failed because a collaborator did, or panicked. -/
@[simp] def isCollaborators : Ending → Bool
  | failed (.client _) | failed (.emit _) | panicked _ => true
  | _ => false

/-- Whether the worker failed by itself. -/
def isOwn : Ending → Bool
  | failed (.stalled what _) => what = Cargo.emitData.label
  | e => e.isCollaborators

/-- What is said about why a worker failed. -/
def reason? : Ending → Option String
  | failed e => some e.message
  | panicked m => some (Pipeline.panicReason m)
  | _ => none

end Ending

/-- Whether the worker waits for its client. -/
@[simp] def FetchStage.atClient : FetchStage → Bool
  | creating | processing _ _ => true
  | _ => false

/-- Whether the worker waits for the emitter. -/
@[simp] def EmitStage.atEmitter : EmitStage → Bool
  | emitting _ => true
  | _ => false

namespace Pipeline

/-- Why a worker ends with a step. It finishes if it has been signalled, and fails for a
collaborator if it waits for one. -/
inductive EndsBy (q : Pipeline) (t : Task) (signalled busy : Prop) : Ending → Prop
  | finished (hs : signalled) : EndsBy q t signalled busy .finished
  | aborted : EndsBy q t signalled busy .aborted
  | collaborator {e} (he : e.isCollaborators = true) (hb : busy) : EndsBy q t signalled busy e
  | stalled {x : Entry} {ms} (hx : x ∈ q.history) (he : x.event = .handoffStalled t .emitData) :
    EndsBy q t signalled busy (.failed (.stalled Cargo.emitData.label ms))
  /-- Its poll has met a failure. -/
  | told {f} (hf : q.tracker.failure = some f) : EndsBy q t signalled busy (.failed f.error)

variable {p q : Pipeline} {i j : Nat} {t : Task} {signalled busy : Prop} {e : Ending}

/-- What is on record of ended workers was there before, or a worker ends for some reason. -/
def Ended (p q : Pipeline) (t : Task) (signalled busy : Prop) : Prop :=
  ∀ x ∈ q.history.log Event.exit,
    x ∈ p.history.log Event.exit ∨ x.1 = t ∧ EndsBy q t signalled busy x.2

theorem exits_endWorker : (p.endWorker t e).history.log Event.exit =
    p.history.log Event.exit ++ [(t, e)] := by
  simp [endWorker, record, release]

theorem exits_endFetcher {w : Fetcher} : (p.endFetcher i w e).history.log Event.exit =
    p.history.log Event.exit ++ [(.fetcher i, e)] := by
  unfold endFetcher
  rw [exits_endWorker]
  split <;> simp [setFetcher, record]

theorem failure_endFetcher {w : Fetcher} :
    (p.endFetcher i w e).tracker.failure = p.tracker.failure := by
  unfold endFetcher
  split <;> rfl

theorem suffix_endFetcher {w : Fetcher} : p.history <:+ (p.endFetcher i w e).history :=
  (CallsKept.endFetcher (.refl p)).history.suffix

namespace Ended

theorem silent (h : q.history.log Event.exit = p.history.log Event.exit) :
    Ended p q t signalled busy :=
  fun _ hx => .inl (h ▸ hx)

theorem of_adds (h : History.Adds (fun e => e.isRoster = false) p.history q.history) :
    Ended p q t signalled busy :=
  silent (h.log fun _ => Event.exit_of_not_isRoster)

/-- Before its step a worker has left nothing else on record. -/
theorem after {r : Pipeline} (h : Ended r q t signalled busy)
    (hr : r.history.log Event.exit = p.history.log Event.exit) : Ended p q t signalled busy := by
  unfold Ended
  rw [← hr]
  exact h

theorem endFetcher {w : Fetcher} (he : EndsBy (p.endFetcher i w e) (.fetcher i) signalled busy e) :
    Ended p (p.endFetcher i w e) (.fetcher i) signalled busy := by
  intro x hx
  rw [exits_endFetcher, List.mem_append, List.mem_singleton] at hx
  rcases hx with hx | rfl
  · exact .inl hx
  · exact .inr ⟨rfl, he⟩

theorem endEmitter (he : EndsBy (p.endEmitter j e) (.emitter j) signalled busy e) :
    Ended p (p.endEmitter j e) (.emitter j) signalled busy := by
  intro x hx
  rw [Pipeline.endEmitter, exits_endWorker, List.mem_append, List.mem_singleton] at hx
  rcases hx with hx | rfl
  · exact .inl hx
  · exact .inr ⟨rfl, he⟩

/-- A poll of a fetch worker in a pipeline that has been opened. -/
theorem tryPoll {w : Fetcher} (hs : p.trackerLock.isFree = true → p.started = true) :
    Ended p (p.tryPoll i w) (.fetcher i) signalled busy := by
  unfold Pipeline.tryPoll
  dsimp only
  split
  · next hfree =>
    have hopen : (p.requestTracker (.fetcher i)).started = true := hs hfree
    have hlog := (Polled.poll (p.requestTracker (.fetcher i)) (.fetcher i)).log
      (f := Event.exit) fun e he => by cases e <;> simp_all
    have hr := poll_result (p.requestTracker (.fetcher i)) (.fetcher i)
    generalize (p.requestTracker (.fetcher i)).poll (.fetcher i) = v at hr hlog
    obtain ⟨r, v⟩ := v
    cases v with
    | active | injecting => exact silent hlog
    | failed err =>
      refine after (endFetcher ?_) hlog
      generalize hv : (r, Verdict.failed err) = v at hr
      cases hr with
      | notStarted hno => rw [hopen] at hno; cases hno
      | latched _ hf => cases hv; exact .told (failure_endFetcher.trans hf)
      | failed _ _ hc =>
        cases hv
        obtain ⟨r', -, rfl⟩ := collects_of_collect_failed hc
        exact .told failure_endFetcher
      | injecting | noEmitters | active => cases hv
  · exact silent rfl

end Ended

/-- A fetch worker ends with its step for some reason, or it does not end. -/
theorem FetcherMove.ended {w : Fetcher} (h : FetcherMove p i w q)
    (hs : p.trackerLock.isFree = true → p.started = true) (hn : ∀ j, w.stage ≠ .injecting j) :
    Ended p q (.fetcher i) (∃ ms, p.intake.messages = .stop :: ms) (w.stage.atClient = true) := by
  cases h with
  | abort => exact .endFetcher .aborted
  | create | acquire => exact .silent rfl
  | created => exact .of_adds (.one rfl)
  | notCreated hst he =>
    refine .endFetcher (.collaborator ?_ (by simp [hst]))
    rcases he with ⟨e, rfl⟩ | ⟨m, rfl⟩ <;> rfl
  | receiveStop _ hm => exact .after (.endFetcher (.finished ⟨_, hm⟩)) (by simp [record])
  | receiveItem => exact .of_adds (.trans (.one rfl) (.one rfl))
  | idle => exact .tryPoll hs
  | handOver => exact .of_adds (.trans (.one rfl) (.one rfl))
  | settle => exact .after (.tryPoll hs) (by simp [record])
  | lose hst hr he =>
    refine .after (.endFetcher (.collaborator ?_ (by simp [hst]))) (by simp [record])
    rcases he with ⟨e, rfl⟩ | ⟨m, rfl⟩ <;> rfl
  | handed => exact .after (.tryPoll hs) (by simp [record])
  | stalled =>
    refine .after (.endFetcher ?_) (by simp [record])
    exact .stalled (suffix_endFetcher.subset List.mem_cons_self) rfl
  | injected hst => exact absurd hst (hn _)

/-- An emit worker ends with its step for some reason, or it does not end. -/
theorem EmitterMove.ended {w : EmitWorker} (h : EmitterMove p j w q) :
    Ended p q (.emitter j) (∃ ms, p.outtake.messages = .stop :: ms)
      (w.stage.atEmitter = true) := by
  cases h with
  | abort => exact .endEmitter .aborted
  | queue | acquire => exact .silent rfl
  | takeStop _ hm => exact .after (.endEmitter (.finished ⟨_, hm⟩)) (by simp [record])
  | takePayload => exact .of_adds (.trans (.one rfl) (.one rfl))
  | delivered => exact .of_adds (.one rfl)
  | failed hst he =>
    refine .after (.endEmitter (.collaborator ?_ (by simp [hst]))) (by simp [record])
    rcases he with ⟨e, rfl⟩ | ⟨m, rfl⟩ <;> rfl

/-- The workers that were launched, as the tracker knows them and as there are. -/
def muster (p : Pipeline) : List (Task × Role) × Nat × Nat :=
  (p.tracker.roles, p.fetchers.length, p.emitters.length)

section Muster

variable {n : Nat}

theorem muster_of_setFetcher {s : FetchStage} (hr : q.tracker.roles = p.tracker.roles)
    (hf : q.fetchers = (p.setFetcher i s).fetchers) (he : q.emitters = p.emitters) :
    q.muster = p.muster := by
  simp [muster, hr, hf, he, setFetcher]

theorem muster_of_setEmitter {s : EmitStage} (hr : q.tracker.roles = p.tracker.roles)
    (hf : q.fetchers = p.fetchers) (he : q.emitters = (p.setEmitter j s).emitters) :
    q.muster = p.muster := by
  simp [muster, hr, hf, he, setEmitter]

theorem muster_endFetcher {w : Fetcher} : (p.endFetcher i w e).muster = p.muster := by
  unfold endFetcher
  dsimp only
  split <;> exact muster_of_setFetcher (s := .exited) rfl rfl rfl

theorem muster_endEmitter : (p.endEmitter j e).muster = p.muster :=
  muster_of_setEmitter (s := .exited) rfl rfl rfl

theorem muster_fail (f : Failure) : (p.fail f).muster = p.muster := by
  simp [muster, fail, abortAll, record]

theorem muster_countExit (exits : List (Task × Ending)) :
    ({ p with tracker := { p.tracker with exits } }.countExit t e).muster = p.muster := by
  simp only [muster, countExit, record]
  split <;> rfl

theorem muster_collectFrom (exits : List (Task × Ending)) :
    (p.collectFrom exits).1.muster = p.muster := by
  induction exits generalizing p with
  | nil => rfl
  | cons x rest ih =>
    obtain ⟨t, e⟩ := x
    rw [collectFrom]
    split
    · exact ih.trans (muster_countExit rest)
    · exact (muster_fail _).trans (muster_countExit rest)

theorem muster_of_collect {f : Option Failure} (hc : p.collect = (q, f)) :
    q.muster = p.muster := by
  have := muster_collectFrom (p := p) p.tracker.exits
  rwa [show p.collectFrom p.tracker.exits = (q, f) from hc] at this

theorem muster_poll : (p.poll t).1.muster = p.muster := by
  have hr := poll_result p t
  generalize p.poll t = v at hr
  cases hr with
  | notStarted | latched => rfl
  | failed _ _ hc => exact muster_of_collect hc
  | @injecting r _ _ hc | @noEmitters r _ _ hc =>
    exact (show _ = r.muster from rfl).trans (muster_of_collect hc)
  | active _ _ hc => exact muster_of_collect hc

theorem muster_injected {k : Injection} {v : Pipeline × Verdict} (h : Injected p t k v) :
    v.1.muster = p.muster := by
  cases h with
  | last | next => rfl
  | stalled _ _ hq => subst hq; exact muster_fail _

theorem muster_afterOfferPoll {item : WorkItem} {wait : Wait} {v : Pipeline × Verdict} :
    (afterOfferPoll n item wait v).muster = v.1.muster := by
  obtain ⟨q, v⟩ := v
  cases v <;> rfl

theorem muster_afterCheckPoll {v : Pipeline × Verdict} :
    (afterCheckPoll n v).muster = v.1.muster := by
  obtain ⟨q, v⟩ := v
  cases v <;> rfl

theorem muster_afterFetcherPoll {w : Fetcher} {v : Pipeline × Verdict} :
    (afterFetcherPoll i w v).muster = v.1.muster := by
  obtain ⟨q, v⟩ := v
  cases v with
  | failed err => exact muster_endFetcher
  | active b => exact muster_of_setFetcher (s := .queuing) rfl rfl rfl
  | injecting k => exact muster_of_setFetcher (s := .injecting k) rfl rfl rfl

theorem muster_tryPoll {w : Fetcher} : (p.tryPoll i w).muster = p.muster := by
  unfold tryPoll
  dsimp only
  split
  · exact muster_afterFetcherPoll.trans muster_poll
  · exact muster_of_setFetcher (s := .queuing) rfl rfl rfl

theorem FetcherMove.muster {w : Fetcher} (h : FetcherMove p i w q) : q.muster = p.muster := by
  cases h with
  | abort | notCreated | stalled => exact muster_endFetcher
  | receiveStop | lose => exact muster_endFetcher
  | create | acquire | created | receiveItem | handOver => exact muster_of_setFetcher rfl rfl rfl
  | idle | settle | handed => exact muster_tryPoll
  | injected _ hi => exact muster_afterFetcherPoll.trans (muster_injected (inject?_injected hi))

theorem EmitterMove.muster {w : EmitWorker} (h : EmitterMove p j w q) : q.muster = p.muster := by
  cases h with
  | abort => exact muster_endEmitter
  | queue | acquire | takePayload | delivered => exact muster_of_setEmitter rfl rfl rfl
  | takeStop | failed => exact muster_endEmitter

/-- Only a launch changes who there is. -/
theorem CallMove.muster {s : CallStage} (h : CallMove p n s q) (hs : ∀ c, s ≠ .launching c) :
    q.muster = p.muster := by
  cases h with
  | launchFetcher | launchEmitter | opened => exact absurd rfl (hs _)
  | offerPolled => exact muster_afterOfferPoll.trans muster_poll
  | offerInjected hi => exact muster_afterOfferPoll.trans (muster_injected (inject?_injected hi))
  | checked => exact muster_afterCheckPoll.trans muster_poll
  | checkInjected hi => exact muster_afterCheckPoll.trans (muster_injected (inject?_injected hi))
  | stalledOut => exact muster_fail _
  | _ => rfl

/-- Only a step of a call that launches workers changes who there is. -/
theorem Move.muster (h : Move p q) : q.muster = p.muster ∨
    ∃ n c, (n, .launching c) ∈ p.calls ∧ CallMove p n (.launching c) q := by
  cases h with
  | invoke hn hi => exact .inl (by cases hi <;> rfl)
  | cancel | tick => exact .inl rfl
  | close =>
    refine .inl ?_
    unfold Pipeline.close
    split
    · rfl
    · simp [Pipeline.muster, abortAll, record]
  | drop => exact .inl (by simp [Pipeline.muster, Pipeline.drop, abortAll, record])
  | @call n s q hm hc =>
    by_cases hl : ∃ c, s = .launching c
    · obtain ⟨c, rfl⟩ := hl
      exact .inr ⟨n, c, hm, hc⟩
    · exact .inl (hc.muster fun c hs => hl ⟨c, hs⟩)
  | fetcher hw hf => exact .inl hf.muster
  | emitter hw he => exact .inl he.muster

end Muster

/-- The tracker knows every worker that was launched, under its pool. -/
structure Enrolled (p : Pipeline) : Prop where
  sound : ∀ t r, (t, r) ∈ p.tracker.roles → t.role? = some r
  fetchers : ∀ i < p.fetchers.length, (.fetcher i, .fetch) ∈ p.tracker.roles
  emitters : ∀ j < p.emitters.length, (.emitter j, .emit) ∈ p.tracker.roles

namespace Enrolled

variable {n : Nat} {s : CallStage}

theorem of_muster (h : Enrolled p) (hm : q.muster = p.muster) : Enrolled q := by
  simp only [muster, Prod.mk.injEq] at hm
  obtain ⟨hr, hf, he⟩ := hm
  refine ⟨?_, ?_, ?_⟩
  · rw [hr]; exact h.sound
  · rw [hr, hf]; exact h.fetchers
  · rw [hr, he]; exact h.emitters

/-- The next worker is launched. -/
theorem launch {c : Nat} (h : Enrolled p) (hs : Staffed p) (hm : (n, .launching c) ∈ p.calls)
    (hc : CallMove p n (.launching c) q) : Enrolled q := by
  obtain ⟨-, -, hfetchers, hemitters⟩ := hs.launching n c hm
  cases hc with
  | opened => exact h.of_muster rfl
  | batchAdmitted hl | batchExpired hl | batchPaused hl => cases hl
  | launchFetcher hlt =>
    refine ⟨fun t r ht => ?_, fun i hi => ?_, fun j hj => ?_⟩
    · rcases List.mem_append.mp ht with ht | ht
      · exact h.sound t r ht
      · cases List.mem_singleton.mp ht; rfl
    · have hi : i < p.fetchers.length + 1 := by
        simpa [setCall, Pipeline.launch, record] using hi
      by_cases hlast : i = c
      · subst hlast
        exact List.mem_append_right _ (by simp)
      · exact List.mem_append_left _ (h.fetchers i (by omega))
    · exact List.mem_append_left _ (h.emitters j hj)
  | launchEmitter hle =>
    refine ⟨fun t r ht => ?_, fun i hi => ?_, fun j hj => ?_⟩
    · rcases List.mem_append.mp ht with ht | ht
      · exact h.sound t r ht
      · cases List.mem_singleton.mp ht; rfl
    · exact List.mem_append_left _ (h.fetchers i hi)
    · have hj : j < p.emitters.length + 1 := by
        simpa [setCall, Pipeline.launch, record] using hj
      by_cases hlast : j = c - p.settings.numClients.toNat
      · subst hlast
        exact List.mem_append_right _ (by simp)
      · exact List.mem_append_left _ (h.emitters j (by omega))

theorem move (h : Enrolled p) (hs : Staffed p) (hm : Move p q) : Enrolled q := by
  rcases hm.muster with he | ⟨n, c, hm, hc⟩
  · exact h.of_muster he
  · exact h.launch hs hm hc

/-- A worker is looked up under the pool that was noted at its launch. -/
theorem lookup_eq {r : Role} (h : Enrolled p) (hm : (t, r) ∈ p.tracker.roles) :
    p.tracker.roles.lookup t = some r := by
  cases hl : p.tracker.roles.lookup t with
  | none => simpa using List.lookup_eq_none_iff.mp hl _ hm
  | some r' =>
    obtain ⟨l₁, l₂, hroles, -⟩ := List.lookup_eq_some_iff.mp hl
    have hr' : t.role? = some r' := h.sound t r' (by simp [hroles])
    rw [← hr', h.sound t r hm]

/-- Of a worker that has ended, the tracker knows the pool. -/
theorem roleName (h : Enrolled p) (hr : Roster p) (ht : (t, e) ∈ p.history.log Event.exit) :
    ∃ r, t.role? = some r ∧ p.roleName t = r.label := by
  have hg := hr.gone t e ht
  have known {r : Role} (hm : (t, r) ∈ p.tracker.roles) :
      ∃ r, t.role? = some r ∧ p.roleName t = r.label :=
    ⟨r, h.sound t r hm, by simp [Pipeline.roleName, h.lookup_eq hm]⟩
  cases t with
  | fetcher i =>
    obtain ⟨w, hw, -⟩ := Option.map_eq_some_iff.mp hg
    exact known (h.fetchers i (List.getElem?_eq_some_iff.mp hw).1)
  | emitter j =>
    obtain ⟨w, hw, -⟩ := Option.map_eq_some_iff.mp hg
    exact known (h.emitters j (List.getElem?_eq_some_iff.mp hw).1)
  | call n => exact hg.elim

end Enrolled

section Runs

variable {n : Nat} {s : CallStage} {settings : Settings} {origin : Instant} {p₀ : Pipeline}

theorem Reaches.enrolled (h : p₀.Reaches p) (hb : build settings origin = .built p₀) :
    Enrolled p := by
  refine h.invariant ?_ fun r _ hr ih hm => ih.move (hr.staffed hb) hm
  obtain ⟨-, -, rfl⟩ := build_eq_built hb
  constructor <;> simp

/-- Whoever launches workers holds the tracker until the pipeline is open. -/
theorem Sections.not_launching_of_free (h : Sections p) (hf : p.trackerLock.isFree = true) :
    ∀ n c, (n, .launching c) ∉ p.calls := by
  intro n c hm
  have held := h.tracker n _ hm rfl
  simp_all [Lock.isFree, Lock.heldBy]

theorem Reaches.started_of_free {w : Fetcher} (h : p₀.Reaches p)
    (hb : build settings origin = .built p₀) (hw : p.fetchers[i]? = some w)
    (hf : p.trackerLock.isFree = true) : p.started = true := by
  by_contra hs
  have hidle := (h.staffed hb).idle (by simpa using hs) ((h.sections hb).not_launching_of_free hf)
  have hlen := (List.getElem?_eq_some_iff.mp hw).1
  omega

theorem CallStage.exit_of_records {e : Event} (h : s.records n e) : e.exit = [] := by
  cases e with
  | exited => cases s <;> simp_all
  | _ => rfl

/-- No worker ends with a step of a call. -/
theorem CallMove.exits (h : CallMove p n s q) :
    q.history.log Event.exit = p.history.log Event.exit :=
  h.records.log fun _ => CallStage.exit_of_records

theorem Invocation.exits {r : Request} (h : Invocation p n r q) :
    q.history.log Event.exit = p.history.log Event.exit := by
  cases h with
  | start | check | status | offer | batch | finish => rfl
  | batchRefused | batchTooLarge | batchEmpty | finishEarly | finishLate | finishAgain =>
    simp [reply, release, record]

end Runs

end Pipeline

end DocumentPipeline
