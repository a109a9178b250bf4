import DocumentPipeline.Proofs.Lines
import DocumentPipeline.Proofs.Stages

/-! # Who stands in line at the locks

In the line of a lock stands exactly who has asked for it and not given it up: submissions and
the announcement at the producer lock, calls that poll or look at the tracker at its lock,
fetch workers without an item at the intake lock, emit workers without a payload at the outtake
lock. So whoever holds a lock is known, and whoever waits for one waits behind somebody.
-/
namespace DocumentPipeline

open Function (update)

namespace CallStage

/-- Whether a call at this stage has asked for the producer lock and not given it up. -/
@[simp] def asksProducer : CallStage → Bool
  | offering _ _ | batching _ _ | finishing => true
  | s => s.holdsProducer

/-- Whether a call at this stage has asked for the tracker's lock and not given it up. -/
@[simp] def asksTracker : CallStage → Bool
  | starting | offerPolling _ _ | stallingOut | checking | reading => true
  | s => s.holdsTracker

end CallStage

/-- Whether a fetch worker at this stage has asked for the intake lock and not given it up. -/
@[simp] def FetchStage.asksIntake : FetchStage → Bool
  | queuing | receiving _ => true
  | _ => false

/-- Whether a fetch worker at this stage holds the tracker's lock. -/
@[simp] def FetchStage.asksTracker : FetchStage → Bool
  | injecting _ => true
  | _ => false

/-- Whether an emit worker at this stage has asked for the outtake lock and not given it up. -/
@[simp] def EmitStage.asksOuttake : EmitStage → Bool
  | queuing | receiving => true
  | _ => false

namespace Lock

variable {l : Lock} {asks asks' : Task → Prop} {own : Task} {standing : Bool}

/-- A lock in whose line stands who asks for it. -/
structure Lined (l : Lock) (asks : Task → Prop) : Prop where
  nodup : l.line.Nodup
  mem_iff : ∀ t, t ∈ l.line ↔ asks t

namespace Lined

theorem congr (h : l.Lined asks) (ha : ∀ t, asks t ↔ asks' t) : l.Lined asks' :=
  ⟨h.nodup, fun t => (h.mem_iff t).trans (ha t)⟩

theorem release (h : l.Lined (update asks own (standing = true))) :
    (l.release own).Lined (update asks own (false = true)) where
  nodup := h.nodup.erase own
  mem_iff t := by
    rw [line_release, h.nodup.mem_erase_iff, h.mem_iff]
    by_cases ht : t = own
    · simp [ht]
    · simp [ht]

theorem request (h : l.Lined (update asks own (false = true))) :
    (l.request own).Lined (update asks own (true = true)) where
  nodup := by
    have hnew : own ∉ l.line := by simp [h.mem_iff]
    simpa [List.nodup_append, h.nodup] using fun t ht (he : t = own) => hnew (he ▸ ht)
  mem_iff t := by
    by_cases ht : t = own
    · simp [ht]
    · simp [h.mem_iff, ht]

/-- Behind whoever asks for the lock stands somebody who holds it. -/
theorem exists_holder {t : Task} (h : l.Lined asks) (ht : asks t) :
    ∃ u, l.heldBy u = true ∧ asks u := by
  have hm := (h.mem_iff t).mpr ht
  obtain ⟨line⟩ := l
  cases line with
  | nil => cases hm
  | cons u rest => exact ⟨u, by simp [heldBy], (h.mem_iff u).mp List.mem_cons_self⟩

end Lined

end Lock

namespace Pipeline

/-- The locks, as completion polls leave them. -/
def locks (p : Pipeline) : Lock × Lock × Lock × Lock :=
  (p.producerLock, p.trackerLock, p.intakeLock, p.outtakeLock)

section Locks

variable {p q : Pipeline} {t : Task}

theorem locks_collectFrom (exits : List (Task × Ending)) :
    (p.collectFrom exits).1.locks = p.locks := by
  induction exits generalizing p with
  | nil => rfl
  | cons x rest ih =>
    obtain ⟨t, e⟩ := x
    rw [collectFrom]
    split
    · exact ih
    · rfl

theorem locks_of_collect {f : Option Failure} (hc : p.collect = (q, f)) : q.locks = p.locks := by
  have := locks_collectFrom (p := p) p.tracker.exits
  rwa [show p.collectFrom p.tracker.exits = (q, f) from hc] at this

theorem locks_poll : (p.poll t).1.locks = p.locks := by
  have hr := poll_result p t
  generalize p.poll t = v at hr
  cases hr with
  | notStarted | latched => rfl
  | failed _ _ hc | active _ _ hc => exact locks_of_collect hc
  | @injecting r _ _ hc | @noEmitters r _ _ hc =>
    exact (show _ = r.locks from rfl).trans (locks_of_collect hc)

theorem locks_injected {i : Injection} {v : Pipeline × Verdict} (h : Injected p t i v) :
    v.1.locks = p.locks := by
  cases h with
  | last | next => rfl
  | stalled _ _ hq => subst hq; rfl

end Locks

def AsksProducer (p : Pipeline) : Task → Prop
  | .call n => ∃ s, (n, s) ∈ p.calls ∧ s.asksProducer = true
  | _ => False

def AsksTracker (p : Pipeline) : Task → Prop
  | .call n => ∃ s, (n, s) ∈ p.calls ∧ s.asksTracker = true
  | .fetcher i => ∃ s, p.fetchStage? i = some s ∧ s.asksTracker = true
  | .emitter _ => False

def AsksIntake (p : Pipeline) : Task → Prop
  | .fetcher i => ∃ s, p.fetchStage? i = some s ∧ s.asksIntake = true
  | _ => False

def AsksOuttake (p : Pipeline) : Task → Prop
  | .emitter j => ∃ s, p.emitStage? j = some s ∧ s.asksOuttake = true
  | _ => False

/-- The lines of all locks are made up of those who ask for them. -/
structure LockLines (p : Pipeline) : Prop where
  producer : p.producerLock.Lined p.AsksProducer
  tracker : p.trackerLock.Lined p.AsksTracker
  intake : p.intakeLock.Lined p.AsksIntake
  outtake : p.outtakeLock.Lined p.AsksOuttake

/-- On the way from one state to another, one task stands in the lines as given and all others as
they did. -/
structure Asks (own : Task) (atProducer atTracker atIntake atOuttake : Bool) (p q : Pipeline) :
    Prop where
  producer : q.producerLock.Lined (update p.AsksProducer own (atProducer = true))
  tracker : q.trackerLock.Lined (update p.AsksTracker own (atTracker = true))
  intake : q.intakeLock.Lined (update p.AsksIntake own (atIntake = true))
  outtake : q.outtakeLock.Lined (update p.AsksOuttake own (atOuttake = true))

namespace Asks

variable {p q r : Pipeline} {own : Task} {a b c d : Bool} {n i j : Nat}

/-- The task stands where its stage requires. -/
theorem start (h : LockLines p) (ha : p.AsksProducer own ↔ a = true)
    (hb : p.AsksTracker own ↔ b = true) (hc : p.AsksIntake own ↔ c = true)
    (hd : p.AsksOuttake own ↔ d = true) : Asks own a b c d p p := by
  have same {asks : Task → Prop} {x : Bool} (hx : asks own ↔ x = true) (t : Task) :
      asks t ↔ update asks own (x = true) t := by
    by_cases ht : t = own
    · simp [ht, hx]
    · simp [ht]
  exact ⟨h.producer.congr (same ha), h.tracker.congr (same hb), h.intake.congr (same hc),
    h.outtake.congr (same hd)⟩

/-- No lock is asked for or given up. -/
theorem quiet (h : Asks own a b c d p q) (hr : r.locks = q.locks) : Asks own a b c d p r := by
  simp only [locks, Prod.mk.injEq] at hr
  obtain ⟨hp, ht, hi, ho⟩ := hr
  exact ⟨hp ▸ h.producer, ht ▸ h.tracker, hi ▸ h.intake, ho ▸ h.outtake⟩

theorem release (h : Asks own a b c d p q) :
    Asks own false false false false p (q.release own) :=
  ⟨h.producer.release, h.tracker.release, h.intake.release, h.outtake.release⟩

theorem requestProducer (h : Asks own false b c d p q) :
    Asks own true b c d p (q.requestProducer own) :=
  ⟨h.producer.request, h.tracker, h.intake, h.outtake⟩

theorem requestTracker (h : Asks own a false c d p q) :
    Asks own a true c d p (q.requestTracker own) :=
  ⟨h.producer, h.tracker.request, h.intake, h.outtake⟩

theorem releaseTracker (h : Asks own a b c d p q) :
    Asks own a false c d p (q.releaseTracker own) :=
  ⟨h.producer, h.tracker.release, h.intake, h.outtake⟩

theorem releaseIntake (h : Asks own a b c d p q) :
    Asks own a b false d p { q with intakeLock := q.intakeLock.release own } :=
  ⟨h.producer, h.tracker, h.intake.release, h.outtake⟩

theorem releaseOuttake (h : Asks own a b c d p q) :
    Asks own a b c false p { q with outtakeLock := q.outtakeLock.release own } :=
  ⟨h.producer, h.tracker, h.intake, h.outtake.release⟩

theorem endFetcher {w : Fetcher} {e : Ending} (h : Asks (.fetcher i) a b c d p q) :
    Asks (.fetcher i) false false false false p (q.endFetcher i w e) := by
  unfold Pipeline.endFetcher
  dsimp only
  split <;> exact h.release.quiet rfl

theorem endEmitter {e : Ending} (h : Asks (.emitter j) a b c d p q) :
    Asks (.emitter j) false false false false p (q.endEmitter j e) :=
  h.release.quiet rfl

theorem queueFetcher (h : Asks (.fetcher i) a b false d p q) :
    Asks (.fetcher i) a b true d p (q.queueFetcher i) :=
  ⟨h.producer, h.tracker, h.intake.request, h.outtake⟩

theorem queueEmitter (h : Asks (.emitter j) a b c false p q) :
    Asks (.emitter j) a b c true p (q.queueEmitter j) :=
  ⟨h.producer, h.tracker, h.intake, h.outtake.request⟩

end Asks

/-- In a step of one task, all others stay at their stages. A worker may be launched. -/
structure Keeps (own : Task) (p q : Pipeline) : Prop where
  calls : ∀ n, .call n ≠ own → ∀ s, (n, s) ∈ q.calls ↔ (n, s) ∈ p.calls
  fetchers : ∀ i, .fetcher i ≠ own → q.fetchStage? i = p.fetchStage? i ∨
    p.fetchStage? i = none ∧ q.fetchStage? i = some .launched
  emitters : ∀ j, .emitter j ≠ own → q.emitStage? j = p.emitStage? j ∨
    p.emitStage? j = none ∧ q.emitStage? j = some .launched

section Keeping

variable {p q : Pipeline} {own : Task} {a b c d : Bool} {n i j : Nat}

theorem SameStages.keeps (h : SameStages p q)
    (hc : ∀ n, .call n ≠ own → ∀ s, (n, s) ∈ q.calls ↔ (n, s) ∈ p.calls) : Keeps own p q where
  calls := hc
  fetchers i _ := .inl (by rw [← getElem?_fetchStages, ← getElem?_fetchStages, h.1])
  emitters j _ := .inl (by rw [← getElem?_emitStages, ← getElem?_emitStages, h.2])

theorem Invocation.keeps {r : Request} (h : Invocation p n r q) : Keeps (.call n) p q :=
  h.sameStages.keeps fun m hm => (h.waits (n := m) (by simpa using hm)).calls

theorem CallMove.keeps {s : CallStage} (h : CallMove p n s q) : Keeps (.call n) p q := by
  have hcalls : ∀ m, .call m ≠ Task.call n → ∀ u, (m, u) ∈ q.calls ↔ (m, u) ∈ p.calls :=
    fun m hm => (h.waits (n := m) (by simpa using hm)).calls
  by_cases hl : ∃ c, s = .launching c
  · obtain ⟨c, rfl⟩ := hl
    refine ⟨hcalls, fun i _ => h.idles.stage i rfl, fun j _ => ?_⟩
    simp only [← getElem?_emitStages]
    rcases h.launches with hk | ⟨-, he⟩ | ⟨-, he⟩
    · exact .inl (by rw [hk.2])
    · exact .inl (by rw [he])
    · rw [he, List.getElem?_append]
      split
      · exact .inl rfl
      · by_cases hj : j = p.emitStages.length
        · exact .inr (by simp [hj])
        · exact .inl (by grind)
  · exact (h.sameStages fun c hc => hl ⟨c, hc⟩).keeps hcalls

theorem FetcherMove.keeps {w : Fetcher} (h : FetcherMove p i w q) : Keeps (.fetcher i) p q where
  calls n _ s := by rw [h.callsKept.calls]
  fetchers k hk := (h.idles hk).stage k rfl
  emitters j _ := .inl (by rw [← getElem?_emitStages, ← getElem?_emitStages, h.movesFetcher.2])

theorem EmitterMove.keeps {w : EmitWorker} (h : EmitterMove p j w q) : Keeps (.emitter j) p q where
  calls n _ s := by rw [h.callsKept.calls]
  fetchers i hi := (h.idles hi).stage i rfl
  emitters k hk := by
    obtain ⟨⟨s, hs⟩, -⟩ := h.movesEmitter
    have hne : j ≠ k := fun he => hk (he ▸ rfl)
    exact .inl (by rw [← getElem?_emitStages, ← getElem?_emitStages, hs, List.getElem?_set_ne hne])

/-- When a step is over, its task stands in the lines that its stage requires. -/
theorem Asks.lines (h : Asks own a b c d p q) (hk : Keeps own p q)
    (ha : q.AsksProducer own ↔ a = true) (hb : q.AsksTracker own ↔ b = true)
    (hc : q.AsksIntake own ↔ c = true) (hd : q.AsksOuttake own ↔ d = true) : LockLines q := by
  have settled {l : Lock} {asks asks' : Task → Prop} {x : Bool}
      (hl : l.Lined (update asks own (x = true))) (hx : asks' own ↔ x = true)
      (ho : ∀ t, t ≠ own → (asks t ↔ asks' t)) : l.Lined asks' := by
    refine hl.congr fun t => ?_
    by_cases ht : t = own
    · simp [ht, hx]
    · simp [ht, ho t ht]
  refine ⟨settled h.producer ha ?_, settled h.tracker hb ?_, settled h.intake hc ?_,
    settled h.outtake hd ?_⟩
  · rintro (i | j | n) ht
    · rfl
    · rfl
    · simp only [AsksProducer, hk.calls n ht]
  · rintro (i | j | n) ht
    · rcases hk.fetchers i ht with he | ⟨hp, hq⟩
      · simp only [AsksTracker, he]
      · simp [AsksTracker, hp, hq]
    · rfl
    · simp only [AsksTracker, hk.calls n ht]
  · rintro (i | j | n) ht
    · rcases hk.fetchers i ht with he | ⟨hp, hq⟩
      · simp only [AsksIntake, he]
      · simp [AsksIntake, hp, hq]
    · rfl
    · rfl
  · rintro (i | j | n) ht
    · rfl
    · rcases hk.emitters j ht with he | ⟨hp, hq⟩
      · simp only [AsksOuttake, he]
      · simp [AsksOuttake, hp, hq]
    · rfl

end Keeping

/-- A call has come to a stage or has ended, and stands in the lines of that stage. -/
structure Posted (n : Nat) (stage : Option CallStage) (p q : Pipeline) : Prop where
  calls : ∀ s, (n, s) ∈ q.calls ↔ stage = some s
  asks : Asks (.call n) (stage.any (·.asksProducer)) (stage.any (·.asksTracker)) false false p q

namespace Posted

variable {p q r : Pipeline} {a b c d : Bool} {n : Nat} {s u : CallStage}
  {stage : Option CallStage}

theorem lines (h : Posted n stage p q) (hk : Keeps (.call n) p q) : LockLines q := by
  refine h.asks.lines hk ?_ ?_ ?_ ?_
  · simp [AsksProducer, h.calls, Option.any_eq_true]
  · simp [AsksTracker, h.calls, Option.any_eq_true]
  · simp [AsksIntake]
  · simp [AsksOuttake]

theorem reply {x : Reply} (h : Asks (.call n) a b c d p q) : Posted n none p (q.reply n x) :=
  ⟨fun s => by simp [mem_reply], h.release.quiet rfl⟩

theorem calls_setCall (hm : (n, s) ∈ q.calls) (v : CallStage) :
    (n, v) ∈ (q.setCall n u).calls ↔ some u = some v := by
  simp only [mem_setCall, ne_eq, not_true_eq_false, false_and, or_false, true_and,
    Option.some.injEq]
  exact ⟨fun hv => hv.1.symm, fun hv => ⟨hv.symm, s, hm⟩⟩

theorem setCall (h : Asks (.call n) u.asksProducer u.asksTracker false false p q)
    (hm : (n, s) ∈ q.calls) : Posted n (some u) p (q.setCall n u) :=
  ⟨calls_setCall hm, h.quiet rfl⟩

theorem queueFetchStop {k : Nat} (h : Asks (.call n) true false false false p q)
    (hm : (n, s) ∈ q.calls) :
    Posted n (some (.stopping k (q.now + q.ceiling))) p (q.queueFetchStop n k) :=
  ⟨calls_setCall hm, h.quiet rfl⟩

/-- Neither the calls nor the locks change. -/
theorem quiet (h : Posted n stage p q) (hc : r.calls = q.calls) (hr : r.locks = q.locks) :
    Posted n stage p r :=
  ⟨fun s => hc ▸ h.calls s, h.asks.quiet hr⟩

theorem afterOfferPoll {item : WorkItem} {wait : Wait} {v : Pipeline × Verdict}
    (h : Asks (.call n) true true false false p v.1) (hm : (n, s) ∈ v.1.calls) :
    ∃ stage, Posted n stage p (afterOfferPoll n item wait v) := by
  obtain ⟨q, v⟩ := v
  cases v with
  | failed e => exact ⟨none, reply h⟩
  | injecting i => exact ⟨_, setCall (u := .offerInjecting item wait i) h hm⟩
  | active r =>
    exact ⟨_, setCall (u := .sending item (wait.timeout q.now)) (h.releaseTracker.quiet rfl) hm⟩

theorem afterCheckPoll {v : Pipeline × Verdict}
    (h : Asks (.call n) false true false false p v.1) (hm : (n, s) ∈ v.1.calls) :
    ∃ stage, Posted n stage p (afterCheckPoll n v) := by
  obtain ⟨q, v⟩ := v
  cases v with
  | failed e => exact ⟨none, reply h⟩
  | active r => exact ⟨none, reply h⟩
  | injecting i => exact ⟨_, setCall (u := .checkInjecting i) h hm⟩

end Posted

namespace LockLines

variable {p q : Pipeline} {n i j : Nat} {s : CallStage}

theorem asks_call (h : LockLines p) (hx : Sections p) (hm : (n, s) ∈ p.calls) :
    Asks (.call n) s.asksProducer s.asksTracker false false p p := by
  refine .start h ⟨?_, fun hs => ⟨s, hm, hs⟩⟩ ⟨?_, fun hs => ⟨s, hm, hs⟩⟩ ?_ ?_
  · rintro ⟨u, hu, hs⟩
    rwa [hx.unique hm hu]
  · rintro ⟨u, hu, hs⟩
    rwa [hx.unique hm hu]
  · simp [AsksIntake]
  · simp [AsksOuttake]

/-- A call without a stage asks for no lock. -/
theorem asks_none (h : LockLines p) (hn : ∀ s, (n, s) ∉ p.calls) :
    Asks (.call n) false false false false p p := by
  refine .start h ?_ ?_ (by simp [AsksIntake]) (by simp [AsksOuttake])
  · simpa [AsksProducer] using fun s hs => absurd hs (hn s)
  · simpa [AsksTracker] using fun s hs => absurd hs (hn s)

theorem asks_fetcher {u : FetchStage} (h : LockLines p) (hs : p.fetchStage? i = some u) :
    Asks (.fetcher i) false u.asksTracker u.asksIntake false p p :=
  .start h (by simp [AsksProducer]) (by simp [AsksTracker, hs]) (by simp [AsksIntake, hs])
    (by simp [AsksOuttake])

theorem asks_emitter {u : EmitStage} (h : LockLines p) (hs : p.emitStage? j = some u) :
    Asks (.emitter j) false false false u.asksOuttake p p :=
  .start h (by simp [AsksProducer]) (by simp [AsksTracker]) (by simp [AsksIntake])
    (by simp [AsksOuttake, hs])

theorem invocation {r : Request} (h : LockLines p) (hn : ∀ s, (n, s) ∉ p.calls)
    (hi : Invocation p n r q) : ∃ stage, Posted n stage p q := by
  have hp := h.asks_none hn
  have added (u v : CallStage) : (n, v) ∈ (p.addCall n u).calls ↔ some u = some v := by
    simp [mem_addCall, hn, eq_comm]
  cases hi with
  | start => exact ⟨some .starting, added _, (hp.requestTracker).quiet rfl⟩
  | check => exact ⟨some .checking, added _, (hp.requestTracker).quiet rfl⟩
  | status => exact ⟨some .reading, added _, (hp.requestTracker).quiet rfl⟩
  | @offer item wait => exact ⟨some (.offering item wait), added _, (hp.requestProducer).quiet rfl⟩
  | @batch items wait =>
    exact ⟨some (.batching items wait), added _, (hp.requestProducer).quiet rfl⟩
  | finish => exact ⟨some .finishing, added _, (hp.requestProducer).quiet rfl⟩
  | batchRefused | batchTooLarge | batchEmpty | finishEarly | finishLate => exact ⟨none, .reply hp⟩
  | finishAgain =>
    exact ⟨none, .reply (q := { p with shuttingDown := true }) (hp.quiet rfl)⟩

theorem call (h : LockLines p) (hx : Sections p) (hm : (n, s) ∈ p.calls)
    (hc : CallMove p n s q) : ∃ stage, Posted n stage p q := by
  have hp := h.asks_call hx hm
  cases hc with
  | startedBefore | offerRefused | unsent | batchRefused | noStops | read =>
    exact ⟨none, .reply hp⟩
  | launching => exact ⟨_, .setCall (u := .launching 0) hp hm⟩
  | @launchFetcher c =>
    exact ⟨_, .setCall (u := .launching (c + 1)) (q := p.launch _ _) (hp.quiet rfl) hm⟩
  | @launchEmitter c =>
    exact ⟨_, .setCall (u := .launching (c + 1)) (q := p.launch _ _) (hp.quiet rfl) hm⟩
  | offerAccepted => exact ⟨_, Posted.calls_setCall hm, hp.requestTracker.quiet rfl⟩
  | offerPolled =>
    have hcalls := (Polled.poll p (.call n)).calls
    exact Posted.afterOfferPoll (hp.quiet locks_poll) (by rw [hcalls]; exact hm)
  | offerInjected hi =>
    have hi := inject?_injected hi
    exact Posted.afterOfferPoll (hp.quiet (locks_injected hi))
      (by rw [(CallsKept.injected hi).calls]; exact hm)
  | opened | sent | batchAdmitted | batchExpired | lastStop | stalledOut =>
    exact ⟨none, .quiet (.reply (x := .started) hp) rfl rfl⟩
  | @batchPaused _ items deadline wake hl =>
    refine ⟨_, .quiet (.setCall (u := .pausing items wake deadline) ?_ hm) rfl rfl⟩
    cases hl <;> exact hp
  | firstStop => exact ⟨_, .queueFetchStop hp hm⟩
  | nextStop => exact ⟨_, .queueFetchStop (q := Pipeline.record _ _) (hp.quiet rfl) hm⟩
  | stopStalled => exact ⟨_, Posted.calls_setCall hm, hp.requestTracker.quiet rfl⟩
  | checked =>
    have hcalls := (Polled.poll p (.call n)).calls
    exact Posted.afterCheckPoll (hp.quiet locks_poll) (by rw [hcalls]; exact hm)
  | checkInjected hi =>
    have hi := inject?_injected hi
    exact Posted.afterCheckPoll (hp.quiet (locks_injected hi))
      (by rw [(CallsKept.injected hi).calls]; exact hm)

/-- A fetch worker has polled. -/
theorem afterFetcherPoll {w : Fetcher} {u : FetchStage} {v : Pipeline × Verdict}
    (h : Asks (.fetcher i) false true false false p v.1) (hs : v.1.fetchStage? i = some u) :
    ∃ s, (afterFetcherPoll i w v).fetchStage? i = some s ∧
      Asks (.fetcher i) false s.asksTracker s.asksIntake false p (afterFetcherPoll i w v) := by
  obtain ⟨q, v⟩ := v
  cases v with
  | failed e => exact ⟨.exited, fetchStage?_endFetcher hs, h.endFetcher⟩
  | active b => exact ⟨.queuing, fetchStage?_of_setFetcher hs rfl, h.releaseTracker.queueFetcher⟩
  | injecting k => exact ⟨.injecting k, fetchStage?_of_setFetcher hs rfl, h.quiet rfl⟩

/-- A fetch worker has stopped waiting for a message and may poll. -/
theorem tryPoll {r : Pipeline} {w : Fetcher} {u : FetchStage}
    (h : Asks (.fetcher i) false false false false p r) (hs : r.fetchStage? i = some u) :
    ∃ v, (r.tryPoll i w).fetchStage? i = some v ∧
      Asks (.fetcher i) false v.asksTracker v.asksIntake false p (r.tryPoll i w) := by
  unfold Pipeline.tryPoll
  dsimp only
  split
  · have hpoll : Asks (.fetcher i) false true false false p
        ((r.requestTracker (.fetcher i)).poll (.fetcher i)).1 := h.requestTracker.quiet locks_poll
    have hstage : ((r.requestTracker (.fetcher i)).poll (.fetcher i)).1.fetchStage? i = some u :=
      ((Polled.poll _ _).fetchStage i).trans hs
    exact afterFetcherPoll hpoll hstage
  · exact ⟨.queuing, fetchStage?_of_setFetcher hs rfl, h.queueFetcher⟩

theorem fetcher {w : Fetcher} (h : LockLines p) (hw : p.fetchers[i]? = some w)
    (hf : FetcherMove p i w q) : ∃ u, q.fetchStage? i = some u ∧
      Asks (.fetcher i) false u.asksTracker u.asksIntake false p q := by
  have hs : p.fetchStage? i = some w.stage := by simp [fetchStage?, hw]
  have hp := h.asks_fetcher hs
  cases hf with
  | abort | notCreated => exact ⟨.exited, fetchStage?_endFetcher hs, hp.endFetcher⟩
  | create hst =>
    rw [hst] at hp
    exact ⟨.creating, fetchStage?_of_setFetcher hs rfl, hp.quiet rfl⟩
  | created hst =>
    rw [hst] at hp
    exact ⟨.queuing, fetchStage?_of_setFetcher hs rfl,
      Asks.queueFetcher (q := p.record _) (hp.quiet rfl)⟩
  | acquire hst =>
    rw [hst] at hp
    exact ⟨.receiving _, fetchStage?_of_setFetcher hs rfl, hp.quiet rfl⟩
  | receiveStop =>
    exact ⟨.exited, fetchStage?_endFetcher hs,
      Asks.endFetcher (hp.releaseIntake.quiet
        (r := { Pipeline.record _ _ with intakeLock := _ }) rfl)⟩
  | receiveItem hst =>
    rw [hst] at hp
    exact ⟨.processing _ _, fetchStage?_of_setFetcher hs rfl, hp.releaseIntake.quiet rfl⟩
  | idle hst =>
    rw [hst] at hp
    exact tryPoll (r := { p with intakeLock := _ }) hp.releaseIntake hs
  | handOver hst =>
    rw [hst] at hp
    exact ⟨.handing _ _ _ _, fetchStage?_of_setFetcher hs rfl, hp.quiet rfl⟩
  | settle hst =>
    rw [hst] at hp
    exact tryPoll (r := { Pipeline.record _ _ with totalProcessed := _ }) (hp.quiet rfl) hs
  | lose hst =>
    exact ⟨.exited, fetchStage?_endFetcher hs, Asks.endFetcher (q := p.record _) (hp.quiet rfl)⟩
  | handed hst hq =>
    rw [hst] at hp
    exact tryPoll (r := { Pipeline.record _ _ with totalProcessed := _ }) (hp.quiet rfl) hs
  | stalled hst =>
    exact ⟨.exited, fetchStage?_endFetcher hs,
      Asks.endFetcher (q := Pipeline.record _ _) (hp.quiet rfl)⟩
  | injected hst hi =>
    rw [hst] at hp
    have hi := inject?_injected hi
    refine afterFetcherPoll (hp.quiet (locks_injected hi)) (u := w.stage) ?_
    rcases (Idles.injected (t := .fetcher i) hi).stage i rfl with he | ⟨hn, -⟩
    · exact he.trans hs
    · rw [hs] at hn; cases hn

theorem emitter {w : EmitWorker} (h : LockLines p) (hw : p.emitters[j]? = some w)
    (he : EmitterMove p j w q) : ∃ u, q.emitStage? j = some u ∧
      Asks (.emitter j) false false false u.asksOuttake p q := by
  have hs : p.emitStage? j = some w.stage := by simp [emitStage?, hw]
  have hp := h.asks_emitter hs
  cases he with
  | abort => exact ⟨.exited, emitStage?_of_setEmitter hs rfl, hp.endEmitter⟩
  | queue hst =>
    rw [hst] at hp
    exact ⟨.queuing, emitStage?_of_setEmitter hs rfl, hp.queueEmitter⟩
  | acquire hst =>
    rw [hst] at hp
    exact ⟨.receiving, emitStage?_of_setEmitter hs rfl, hp.quiet rfl⟩
  | takeStop =>
    exact ⟨.exited, emitStage?_of_setEmitter hs rfl,
      Asks.endEmitter (q := Pipeline.record _ _) (hp.releaseOuttake.quiet rfl)⟩
  | takePayload hst =>
    rw [hst] at hp
    exact ⟨.emitting _, emitStage?_of_setEmitter hs rfl, hp.releaseOuttake.quiet rfl⟩
  | delivered hst =>
    rw [hst] at hp
    exact ⟨.queuing, emitStage?_of_setEmitter hs rfl,
      Asks.queueEmitter (q := p.record _) (hp.quiet rfl)⟩
  | failed hst =>
    exact ⟨.exited, emitStage?_of_setEmitter hs rfl,
      Asks.endEmitter (q := p.record _) (hp.quiet rfl)⟩

theorem move (h : LockLines p) (hx : Sections p) (hm : Move p q) : LockLines q := by
  -- nobody moves: the lines are judged as those of a worker that does not exist
  have unmoved {r : Pipeline} (hk : Keeps (.emitter p.emitters.length) p r)
      (hr : r.locks = p.locks) (hs : r.emitStages = p.emitStages) : LockLines r := by
    have hnone : p.emitStage? p.emitters.length = none := by simp [emitStage?]
    have hrnone : r.emitStage? p.emitters.length = none := by
      rw [← getElem?_emitStages, hs, getElem?_emitStages, hnone]
    have hp : Asks (.emitter p.emitters.length) false false false false p p :=
      .start h (by simp [AsksProducer]) (by simp [AsksTracker]) (by simp [AsksIntake])
        (by simp [AsksOuttake, hnone])
    exact (hp.quiet hr).lines hk (by simp [AsksProducer]) (by simp [AsksTracker])
      (by simp [AsksIntake]) (by simp [AsksOuttake, hrnone])
  cases hm with
  | @invoke n r q hn hi =>
    obtain ⟨stage, hq⟩ := invocation (p := p.record (.invoked n r)) ⟨h.producer, h.tracker,
      h.intake, h.outtake⟩ hn hi
    exact hq.lines hi.keeps
  | @cancel n stage hm hs =>
    have hp : Posted n none p (p.reply n .started) := .reply (h.asks_call hx hm)
    have hq : Posted n none p ({ p.release (.call n) with
        calls := p.calls.filter (·.1 ≠ n) }.record (.cancelled n)) :=
      hp.quiet rfl rfl
    refine hq.lines (SameStages.keeps ⟨rfl, rfl⟩ fun m hm => ?_)
    have hw : Waits m p ({ p.release (.call n) with
        calls := p.calls.filter (·.1 ≠ n) }.record (.cancelled n)) :=
      .leave (.refl p) (by simpa using hm) rfl rfl (by simpa using Ne.symm hm)
    exact hw.calls
  | close =>
    have hk : Keeps (.emitter p.emitters.length) p p.close :=
      (close_sameStages p).keeps fun n _ s => by rw [(CallsKept.close p).calls]
    refine unmoved hk ?_ (close_sameStages p).2
    unfold Pipeline.close
    split <;> rfl
  | drop =>
    have hk : Keeps (.emitter p.emitters.length) p p.drop :=
      (drop_sameStages p).keeps fun n _ s => by rw [(CallsKept.drop p).calls]
    exact unmoved hk rfl (drop_sameStages p).2
  | tick => exact unmoved (SameStages.keeps ⟨rfl, rfl⟩ fun _ _ _ => .rfl) rfl rfl
  | call hm hc =>
    obtain ⟨stage, hq⟩ := h.call hx hm hc
    exact hq.lines hc.keeps
  | fetcher hw hf =>
    obtain ⟨u, hu, hq⟩ := h.fetcher hw hf
    exact hq.lines hf.keeps (by simp [AsksProducer]) (by simp [AsksTracker, hu])
      (by simp [AsksIntake, hu]) (by simp [AsksOuttake])
  | emitter hw he =>
    obtain ⟨u, hu, hq⟩ := h.emitter hw he
    exact hq.lines he.keeps (by simp [AsksProducer]) (by simp [AsksTracker])
      (by simp [AsksIntake]) (by simp [AsksOuttake, hu])

end LockLines

theorem lockLines_of_build {settings : Settings} {origin : Instant} {p : Pipeline}
    (h : build settings origin = .built p) : LockLines p := by
  obtain ⟨-, -, rfl⟩ := build_eq_built h
  refine ⟨⟨List.nodup_nil, ?_⟩, ⟨List.nodup_nil, ?_⟩, ⟨List.nodup_nil, ?_⟩,
    ⟨List.nodup_nil, ?_⟩⟩
  · rintro (i | j | n) <;> simp [AsksProducer]
  · rintro (i | j | n) <;> simp [AsksTracker, fetchStage?]
  · rintro (i | j | n) <;> simp [AsksIntake, fetchStage?]
  · rintro (i | j | n) <;> simp [AsksOuttake, emitStage?]

theorem Reaches.lockLines {settings : Settings} {origin : Instant} {p q : Pipeline}
    (h : p.Reaches q) (hb : build settings origin = .built p) : LockLines q :=
  h.invariant (lockLines_of_build hb) fun _ _ hr ih hm => ih.move (hr.sections hb) hm

end Pipeline

end DocumentPipeline
