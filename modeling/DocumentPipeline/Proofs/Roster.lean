import DocumentPipeline.Proofs.Launching
import Mathlib.Data.List.Perm.Subperm

/-! # The roster of the workers that ended

A worker ends once and is collected at most once, and the tracker counts the collections.
A worker that is asked to abort, or that is collected after a failure, leaves its mark on
the pipeline: it has been closed, or a failure has been latched.
-/
namespace DocumentPipeline

/-- Whether a worker ended on its own account, other than by finishing. -/
@[simp] def Ending.isFailure : Ending → Bool
  | failed _ | panicked _ => true
  | _ => false

namespace Event

/-- Whether the event puts a worker on the roster, or counts it. -/
@[simp] def isRoster : Event → Bool
  | exited _ _ | collected _ _ => true
  | _ => false

/-- Whether the event tears the pipeline down from outside. -/
@[simp] def isTeardown : Event → Bool
  | closed | dropped => true
  | _ => false

theorem exit_of_not_isRoster {e : Event} (h : e.isRoster = false) : e.exit = [] := by
  cases e <;> first | rfl | cases h

theorem collection_of_not_isRoster {e : Event} (h : e.isRoster = false) : e.collection = [] := by
  cases e <;> first | rfl | cases h

end Event

/-- The workers of a pool that finished, in a log of endings. -/
def finishers (role : Role) (l : List (Task × Ending)) : List Task :=
  l.filterMap fun x => if x.2 = .finished ∧ x.1.role? = some role then some x.1 else none

theorem mem_finishers {role : Role} {l : List (Task × Ending)} {t : Task} :
    t ∈ finishers role l ↔ (t, .finished) ∈ l ∧ t.role? = some role := by
  simp only [finishers, List.mem_filterMap, Prod.exists]
  constructor
  · rintro ⟨u, e, hm, hu⟩
    split at hu
    · next h => obtain ⟨rfl, hr⟩ := h; cases hu; exact ⟨hm, hr⟩
    · cases hu
  · rintro ⟨hm, hr⟩
    exact ⟨t, .finished, hm, by simp [hr]⟩

theorem finishers_sublist (role : Role) (l : List (Task × Ending)) :
    (finishers role l).Sublist (l.map Prod.fst) := by
  induction l with
  | nil => exact .slnil
  | cons x l ih =>
    unfold finishers at ih ⊢
    rw [List.filterMap_cons, List.map_cons]
    split
    · exact ih.cons _
    · next h =>
      split at h
      · cases h; exact ih.cons_cons _
      · cases h

namespace Pipeline

/-- Whether a worker has come to its end. -/
def hasExited (p : Pipeline) : Task → Prop
  | .fetcher i => p.fetchStage? i = some .exited
  | .emitter j => p.emitStage? j = some .exited
  | .call _ => False

/-- The workers of a pool. -/
def pool (p : Pipeline) : Role → List Task
  | .fetch => (List.range p.settings.numClients.toNat).map .fetcher
  | .emit => (List.range p.settings.numEmitters.toNat).map .emitter

/-- What the roster is about. -/
def staff (p : Pipeline) : Bool × Tracker × List Fetcher × List EmitWorker × History :=
  (p.closed, p.tracker, p.fetchers, p.emitters, p.history)

/-- No worker ends or is collected, nor is any asked to abort. Only one worker may leave its
stage. -/
structure Steady (own : Task) (p q : Pipeline) : Prop where
  closed : q.closed = p.closed
  exits : q.tracker.exits = p.tracker.exits
  finished : q.tracker.finished = p.tracker.finished
  fetchFinished : q.tracker.fetchFinished = p.tracker.fetchFinished
  emitFinished : q.tracker.emitFinished = p.tracker.emitFinished
  failure : q.tracker.failure = p.tracker.failure
  stages : ∀ t, t ≠ own → p.hasExited t → q.hasExited t
  fetchers : ∀ w ∈ q.fetchers, w.abortRequested = true →
    ∃ u ∈ p.fetchers, u.abortRequested = true
  emitters : ∀ w ∈ q.emitters, w.abortRequested = true →
    ∃ u ∈ p.emitters, u.abortRequested = true
  history : History.Adds (fun e => e.isRoster = false) p.history q.history

namespace Steady

variable {p q r : Pipeline} {own t : Task}

/-- The tracker and the workers stay as they are. -/
theorem silent (hc : q.closed = p.closed) (ht : q.tracker = p.tracker)
    (hf : q.fetchers = p.fetchers) (he : q.emitters = p.emitters)
    (hh : History.Adds (fun e => e.isRoster = false) p.history q.history) :
    Steady own p q where
  closed := hc
  exits := by rw [ht]
  finished := by rw [ht]
  fetchFinished := by rw [ht]
  emitFinished := by rw [ht]
  failure := by rw [ht]
  stages t _ h := by cases t <;> simp_all [hasExited, fetchStage?, emitStage?]
  fetchers w hw ha := ⟨w, hf ▸ hw, ha⟩
  emitters w hw ha := ⟨w, he ▸ hw, ha⟩
  history := hh

theorem refl (p : Pipeline) : Steady own p p := silent rfl rfl rfl rfl (.refl _)

theorem trans (hpq : Steady own p q) (hqr : Steady own q r) : Steady own p r where
  closed := hqr.closed.trans hpq.closed
  exits := hqr.exits.trans hpq.exits
  finished := hqr.finished.trans hpq.finished
  fetchFinished := hqr.fetchFinished.trans hpq.fetchFinished
  emitFinished := hqr.emitFinished.trans hpq.emitFinished
  failure := hqr.failure.trans hpq.failure
  stages t ht h := hqr.stages t ht (hpq.stages t ht h)
  fetchers w hw ha := by
    obtain ⟨u, hu, hua⟩ := hqr.fetchers w hw ha
    exact hpq.fetchers u hu hua
  emitters w hw ha := by
    obtain ⟨u, hu, hua⟩ := hqr.emitters w hw ha
    exact hpq.emitters u hu hua
  history := hpq.history.trans hqr.history

theorem exits_log (h : Steady own p q) :
    q.history.log Event.exit = p.history.log Event.exit :=
  h.history.log fun _ => Event.exit_of_not_isRoster

theorem collections_log (h : Steady own p q) :
    q.history.log Event.collection = p.history.log Event.collection :=
  h.history.log fun _ => Event.collection_of_not_isRoster

/-- Nothing happens to the workers and nothing is recorded. -/
theorem quiet (h : Steady own p q) (hr : r.staff = q.staff) : Steady own p r := by
  simp only [staff, Prod.mk.injEq] at hr
  obtain ⟨hc, ht, hf, he, hh⟩ := hr
  exact h.trans (silent hc ht hf he (hh ▸ .refl _))

theorem record {e : Event} (h : Steady own p q) (he : e.isRoster = false) :
    Steady own p (q.record e) :=
  h.trans (silent rfl rfl rfl rfl (.one he))

theorem reply {n : Nat} {a : Reply} (h : Steady own p q) : Steady own p (q.reply n a) :=
  record (q := { q.release (.call n) with calls := q.calls.filter (·.1 ≠ n) }) (h.quiet rfl) rfl

theorem setFetcher {i : Nat} {s : FetchStage} (h : Steady (.fetcher i) p q) :
    Steady (.fetcher i) p (q.setFetcher i s) := by
  have hq : Steady (.fetcher i) q q := refl q
  refine h.trans { hq with stages := ?_, fetchers := ?_ }
  · rintro (k | j | n) ht hx
    · have hik : i ≠ k := fun he => ht (by rw [he])
      simpa [hasExited, fetchStage?, Pipeline.setFetcher, hik] using hx
    · exact hx
    · exact hx
  · intro w hw ha
    obtain ⟨k, hk⟩ := List.getElem?_of_mem hw
    simp only [Pipeline.setFetcher, List.getElem?_modify, Option.map_eq_map,
      Option.map_eq_some_iff] at hk
    obtain ⟨u, hu, rfl⟩ := hk
    exact ⟨u, List.mem_of_getElem? hu, by split at ha <;> simpa using ha⟩

theorem setEmitter {j : Nat} {s : EmitStage} (h : Steady (.emitter j) p q) :
    Steady (.emitter j) p (q.setEmitter j s) := by
  have hq : Steady (.emitter j) q q := refl q
  refine h.trans { hq with stages := ?_, emitters := ?_ }
  · rintro (k | i | n) ht hx
    · exact hx
    · have hji : j ≠ i := fun he => ht (by rw [he])
      simpa [hasExited, emitStage?, Pipeline.setEmitter, hji] using hx
    · exact hx
  · intro w hw ha
    obtain ⟨k, hk⟩ := List.getElem?_of_mem hw
    simp only [Pipeline.setEmitter, List.getElem?_modify, Option.map_eq_map,
      Option.map_eq_some_iff] at hk
    obtain ⟨u, hu, rfl⟩ := hk
    exact ⟨u, List.mem_of_getElem? hu, by split at ha <;> simpa using ha⟩

theorem queueFetcher {i : Nat} (h : Steady (.fetcher i) p q) :
    Steady (.fetcher i) p (q.queueFetcher i) :=
  quiet (q := q.setFetcher i .queuing) h.setFetcher rfl

theorem queueEmitter {j : Nat} (h : Steady (.emitter j) p q) :
    Steady (.emitter j) p (q.queueEmitter j) :=
  quiet (q := q.setEmitter j .queuing) h.setEmitter rfl

theorem launch {role : Role} (h : Steady own p q) : Steady own p (q.launch t role) := by
  have hq : Steady own q q := refl q
  cases role with
  | fetch =>
    refine h.trans { hq with stages := ?_, fetchers := ?_, history := .one rfl }
    · rintro (k | j | n) - hx
      · simp only [hasExited, fetchStage?, Pipeline.launch, Pipeline.record] at hx ⊢
        grind
      · exact hx
      · exact hx
    · intro w hw ha
      rcases List.mem_append.mp hw with hw | hw
      · exact ⟨w, hw, ha⟩
      · obtain rfl := List.mem_singleton.mp hw
        cases ha
  | emit =>
    refine h.trans { hq with stages := ?_, emitters := ?_, history := .one rfl }
    · rintro (k | j | n) - hx
      · exact hx
      · simp only [hasExited, emitStage?, Pipeline.launch, Pipeline.record] at hx ⊢
        grind
      · exact hx
    · intro w hw ha
      rcases List.mem_append.mp hw with hw | hw
      · exact ⟨w, hw, ha⟩
      · obtain rfl := List.mem_singleton.mp hw
        cases ha

theorem queueEmitStop {r : Nat} (h : Steady own p q) : Steady own p (q.queueEmitStop t r).1 :=
  record (q := { q with outtake := q.outtake.join t }) (h.quiet rfl) rfl

theorem endInjection (h : Steady own p q) : Steady own p q.endInjection.1 := by
  have hq : Steady own q q := refl q
  exact h.trans { hq with }

end Steady

/-- The endings of the workers are on record once, in the order of their collection, and the
tracker counts the collections. -/
structure Roster (p : Pipeline) : Prop where
  exits : p.history.log Event.exit = p.history.log Event.collection ++ p.tracker.exits
  nodup : ((p.history.log Event.exit).map Prod.fst).Nodup
  gone : ∀ t e, (t, e) ∈ p.history.log Event.exit → p.hasExited t
  finished : p.tracker.finished = (p.history.log Event.collection).length
  fetchFinished :
    p.tracker.fetchFinished = (finishers .fetch (p.history.log Event.collection)).length
  emitFinished :
    p.tracker.emitFinished = (finishers .emit (p.history.log Event.collection)).length

/-- Why workers are torn down: the pipeline was closed, or a failure was latched. -/
structure Upset (p : Pipeline) : Prop where
  failing : ∀ t e, (t, e) ∈ p.history.log Event.collection → e.isFailure = true →
    p.tracker.failure ≠ none
  aborted : ∀ t, (t, .aborted) ∈ p.history.log Event.exit → p.closed = true
  fetchers : ∀ w ∈ p.fetchers, w.abortRequested = true → p.closed = true
  emitters : ∀ w ∈ p.emitters, w.abortRequested = true → p.closed = true
  latched : p.tracker.failure ≠ none → p.closed = true
  cause : p.closed = true →
    p.tracker.failure ≠ none ∨ ∃ x ∈ p.history, x.event.isTeardown = true

namespace Roster

variable {p q : Pipeline} {own t : Task}

theorem of_steady (h : Roster p) (hs : Steady own p q) (hn : ¬ p.hasExited own) : Roster q where
  exits := by rw [hs.exits_log, hs.collections_log, hs.exits]; exact h.exits
  nodup := by rw [hs.exits_log]; exact h.nodup
  gone t e hm := by
    rw [hs.exits_log] at hm
    have hx := h.gone t e hm
    exact hs.stages t (fun he => hn (he ▸ hx)) hx
  finished := by rw [hs.collections_log, hs.finished]; exact h.finished
  fetchFinished := by rw [hs.collections_log, hs.fetchFinished]; exact h.fetchFinished
  emitFinished := by rw [hs.collections_log, hs.emitFinished]; exact h.emitFinished

/-- A worker that has not ended before ends now. -/
theorem endWorker {e : Ending} (h : Roster p) (hn : ∀ e, (t, e) ∉ p.history.log Event.exit)
    (hx : p.hasExited t) : Roster (p.endWorker t e) := by
  have hgone : ∀ u, p.hasExited u → (p.endWorker t e).hasExited u := by
    rintro (i | j | n) hu <;> exact hu
  obtain ⟨he, hnd, hg, hf, hff, hfe⟩ := h
  constructor
  · simp [Pipeline.endWorker, record, release, he]
  · have hfresh : t ∉ (p.history.log Event.exit).map Prod.fst := by
      intro hm
      obtain ⟨⟨u, e⟩, hu, rfl⟩ := List.mem_map.mp hm
      exact hn e hu
    simp only [Pipeline.endWorker, record, release, History.log_cons, Event.exit, List.map_append,
      List.map_cons, List.map_nil, List.nodup_append]
    refine ⟨hnd, by simp, ?_⟩
    rintro a ha b hb rfl
    simp only [List.mem_singleton] at hb
    subst hb
    exact hfresh ha
  · intro u d hm
    simp only [Pipeline.endWorker, record, release, History.log_cons, Event.exit,
      List.mem_append, List.mem_singleton, Prod.mk.injEq] at hm
    rcases hm with hm | ⟨rfl, rfl⟩
    · exact hgone u (hg u d hm)
    · exact hgone u hx
  · simpa [Pipeline.endWorker, record, release] using hf
  · simpa [Pipeline.endWorker, record, release] using hff
  · simpa [Pipeline.endWorker, record, release] using hfe

/-- A poll takes the worker that has waited longest for its collection. -/
theorem countExit {rest : List (Task × Ending)} {e : Ending} (h : Roster p)
    (he : p.tracker.exits = (t, e) :: rest) :
    Roster ({ p with tracker := { p.tracker with exits := rest } }.countExit t e) := by
  obtain ⟨hx, hnd, hg, hf, hff, hfe⟩ := h
  have hlog (role : Role) : finishers role (p.history.log Event.collection ++ [(t, e)]) =
      finishers role (p.history.log Event.collection) ++
        (if e = .finished ∧ t.role? = some role then [t] else []) := by
    simp only [finishers, List.filterMap_append]
    congr 1
    split <;> simp_all
  constructor
  · simp only [Pipeline.countExit, record, History.log_cons, Event.exit, Event.collection,
      List.append_nil]
    rw [hx, he]
    split <;> simp
  · simpa [Pipeline.countExit, record] using hnd
  · intro u d hm
    have := hg u d (by simpa [Pipeline.countExit, record] using hm)
    cases u <;> exact this
  · simp only [Pipeline.countExit, record, History.log_cons, Event.collection, List.length_append]
    split <;> simp [hf]
  · simp only [Pipeline.countExit, record, History.log_cons, Event.collection, hlog]
    split <;> grind
  · simp only [Pipeline.countExit, record, History.log_cons, Event.collection, hlog]
    split <;> grind

theorem abortAll (h : Roster p) : Roster p.abortAll := by
  obtain ⟨hx, hnd, hg, hf, hff, hfe⟩ := h
  refine ⟨hx, hnd, fun t e hm => ?_, hf, hff, hfe⟩
  have hp := Polled.abortAll p
  have := hg t e hm
  cases t with
  | fetcher i => exact (hp.fetchStage i).trans this
  | emitter j => exact (hp.emitStage j).trans this
  | call n => exact this

theorem record {e : Event} (h : Roster p) (he : e.isRoster = false) :
    Roster (p.record e) := by
  have hs : Steady (.call 0) p (p.record e) := .record (.refl p) he
  exact h.of_steady hs id

theorem fail {f : Failure} (h : Roster p) : Roster (p.fail f) :=
  record (p := { p.abortAll with tracker := _ }) { h.abortAll with gone := h.abortAll.gone } rfl

end Roster

namespace Upset

variable {p q : Pipeline} {own t : Task}

theorem of_steady (h : Upset p) (hs : Steady own p q) : Upset q where
  failing t e hm he := by
    rw [hs.collections_log] at hm
    rw [hs.failure]
    exact h.failing t e hm he
  aborted t hm := by
    rw [hs.exits_log] at hm
    rw [hs.closed]
    exact h.aborted t hm
  fetchers w hw ha := by
    obtain ⟨u, hu, hua⟩ := hs.fetchers w hw ha
    rw [hs.closed]
    exact h.fetchers u hu hua
  emitters w hw ha := by
    obtain ⟨u, hu, hua⟩ := hs.emitters w hw ha
    rw [hs.closed]
    exact h.emitters u hu hua
  latched hf := by
    rw [hs.failure] at hf
    rw [hs.closed]
    exact h.latched hf
  cause hc := by
    rw [hs.closed] at hc
    rw [hs.failure]
    rcases h.cause hc with hf | ⟨x, hx, hd⟩
    · exact .inl hf
    · exact .inr ⟨x, hs.history.suffix.subset hx, hd⟩

/-- A latched failure explains everything. -/
theorem of_failed (hc : p.closed = true) (hf : p.tracker.failure ≠ none) : Upset p :=
  ⟨fun _ _ _ _ => hf, fun _ _ => hc, fun _ _ _ => hc, fun _ _ _ => hc, fun _ => hc,
    fun _ => .inl hf⟩

theorem endWorker {e : Ending} (h : Upset p) (he : e = .aborted → p.closed = true) :
    Upset (p.endWorker t e) := by
  obtain ⟨hf, ha, hw, hv, hl, hc⟩ := h
  refine ⟨?_, ?_, hw, hv, hl, ?_⟩
  · simpa [Pipeline.endWorker, record, release] using hf
  · intro u hu
    simp only [Pipeline.endWorker, record, release, History.log_cons, Event.exit,
      List.mem_append, List.mem_singleton, Prod.mk.injEq] at hu
    rcases hu with hu | ⟨-, hu⟩
    · exact ha u hu
    · exact he hu.symm
  · intro hq
    rcases hc hq with hf | ⟨x, hx, hd⟩
    · exact .inl hf
    · exact .inr ⟨x, List.mem_cons_of_mem _ hx, hd⟩

theorem countExit {rest : List (Task × Ending)} {e : Ending} (h : Upset p)
    (he : e.isFailure = false) :
    Upset ({ p with tracker := { p.tracker with exits := rest } }.countExit t e) := by
  obtain ⟨hf, ha, hw, hv, hl, hc⟩ := h
  have hfailure : ({ p with tracker := { p.tracker with exits := rest } }.countExit t
      e).tracker.failure = p.tracker.failure := by
    simp only [Pipeline.countExit, record]
    split <;> rfl
  refine ⟨?_, ?_, hw, hv, ?_, ?_⟩
  · intro u d hm hd
    rw [hfailure]
    simp only [Pipeline.countExit, record, History.log_cons, Event.collection, List.mem_append,
      List.mem_singleton, Prod.mk.injEq] at hm
    rcases hm with hm | ⟨-, rfl⟩
    · exact hf u d hm hd
    · rw [he] at hd; cases hd
  · simpa [Pipeline.countExit, record] using ha
  · rw [hfailure]; exact hl
  · intro hq
    rw [hfailure]
    rcases hc hq with hf | ⟨x, hx, hd⟩
    · exact .inl hf
    · exact .inr ⟨x, List.mem_cons_of_mem _ hx, hd⟩

/-- Tearing the pipeline down from outside explains itself. -/
theorem tearDown {e : Event} (h : Upset p) (hc : q.closed = true)
    (ht : q.tracker = p.tracker) (hh : q.history = p.history) (he : e.isTeardown = true)
    (hr : e.isRoster = false) : Upset (q.record e) where
  failing t d hm hd := by
    have hlog : (q.record e).history.log Event.collection = p.history.log Event.collection := by
      simp only [record, History.log_cons, hh]
      cases e <;> simp_all
    rw [hlog] at hm
    have := h.failing t d hm hd
    simpa [record, ht] using this
  aborted _ _ := hc
  fetchers _ _ _ := hc
  emitters _ _ _ := hc
  latched _ := hc
  cause _ := .inr ⟨_, List.mem_cons_self, he⟩

end Upset

theorem failureOf?_eq_none_iff {p : Pipeline} {t : Task} {e : Ending} :
    p.failureOf? t e = none ↔ e.isFailure = false := by
  cases e <;> simp [failureOf?]

/-- The roster is kept, and what happened to the workers is explained. -/
structure Tracked (p : Pipeline) : Prop extends Roster p, Upset p

namespace Tracked

variable {p q : Pipeline} {own t : Task}

theorem of_steady (h : Tracked p) (hs : Steady own p q) (hn : ¬ p.hasExited own) : Tracked q :=
  ⟨h.toRoster.of_steady hs hn, h.toUpset.of_steady hs⟩

theorem fail {f : Failure} (h : Tracked p) : Tracked (p.fail f) :=
  ⟨h.toRoster.fail, .of_failed rfl (Option.some_ne_none f)⟩

theorem collectFrom {exits : List (Task × Ending)} (h : Tracked p)
    (he : p.tracker.exits = exits) : Tracked (p.collectFrom exits).1 := by
  induction exits generalizing p with
  | nil => exact h
  | cons x rest ih =>
    obtain ⟨t, e⟩ := x
    have hr := h.toRoster.countExit he
    rw [Pipeline.collectFrom]
    split
    · next hf =>
      refine ih ⟨hr, h.toUpset.countExit (failureOf?_eq_none_iff.mp hf)⟩ ?_
      simp only [Pipeline.countExit, record]
      split <;> rfl
    · next f hf => exact ⟨hr.fail, .of_failed rfl (Option.some_ne_none f)⟩

theorem collect {f : Option Failure} (h : Tracked p) (hc : p.collect = (q, f)) : Tracked q := by
  have := h.collectFrom rfl
  rw [show p.collectFrom p.tracker.exits = (q, f) from hc] at this
  exact this

theorem call_of_steady {n : Nat} (h : Tracked p) (hs : Steady (.call n) p q) : Tracked q :=
  h.of_steady hs id

theorem poll (h : Tracked p) (t : Task) : Tracked (p.poll t).1 := by
  have hr := poll_result p t
  generalize p.poll t = v at hr
  cases hr with
  | notStarted | latched => exact h
  | failed _ _ hc => exact h.collect hc
  | injecting _ _ hc => exact (h.collect hc).call_of_steady (n := 0) (.queueEmitStop (.refl _))
  | noEmitters _ _ hc => exact (h.collect hc).call_of_steady (n := 0) (.endInjection (.refl _))
  | active _ _ hc => exact h.collect hc

theorem injected {i : Injection} {v : Pipeline × Verdict} (h : Tracked p)
    (hi : Injected p t i v) : Tracked v.1 := by
  have hpush : Tracked
      ({ p with outtake := p.outtake.push t .stop }.record (.stopQueued .emit)) :=
    h.call_of_steady (n := 0) (.record (.quiet (.refl p) rfl) rfl)
  cases hi with
  | last hs hr => exact hpush.call_of_steady (n := 0) (.endInjection (.refl _))
  | next hs hr => exact hpush.call_of_steady (n := 0) (.queueEmitStop (.refl _))
  | @stalled q f hs hd hq hf =>
    subst hq
    have hleave : Tracked
        ({ p with outtake := p.outtake.leave t }.record (.handoffStalled t .emitStop)) :=
      h.call_of_steady (n := 0) (.record (.quiet (.refl p) rfl) rfl)
    exact fail (hleave.call_of_steady (n := 0) (.endInjection (.refl _)))

theorem reply {n : Nat} {a : Reply} (h : Tracked p) : Tracked (p.reply n a) :=
  h.call_of_steady (n := n) (.reply (.refl p))

theorem setCall {n : Nat} {s : CallStage} (h : Tracked p) : Tracked (p.setCall n s) :=
  h.call_of_steady (n := n) (.quiet (.refl p) rfl)

theorem queueFetchStop {n r : Nat} (h : Tracked p) : Tracked (p.queueFetchStop n r) :=
  setCall (h.call_of_steady (n := n) (.record (.quiet (.refl p) rfl) rfl))

theorem afterOfferPoll {n : Nat} {item : WorkItem} {wait : Wait} {v : Pipeline × Verdict}
    (h : Tracked v.1) : Tracked (afterOfferPoll n item wait v) := by
  obtain ⟨q, v⟩ := v
  cases v with
  | failed e => exact h.reply
  | active b => exact h.call_of_steady (n := n) (.quiet (.refl q) rfl)
  | injecting i => exact h.setCall

theorem afterCheckPoll {n : Nat} {v : Pipeline × Verdict} (h : Tracked v.1) :
    Tracked (afterCheckPoll n v) := by
  obtain ⟨q, v⟩ := v
  cases v with
  | failed e => exact h.reply
  | active b => exact h.reply
  | injecting i => exact h.setCall

/-- A worker is on record as ended only if it stands at its last stage. -/
theorem not_mem_exit {e : Ending} (h : Tracked p) (hn : ¬ p.hasExited t) :
    (t, e) ∉ p.history.log Event.exit :=
  fun hm => hn (h.gone t e hm)

theorem endFetcher {i : Nat} {w : Fetcher} {s : FetchStage} {e : Ending} (h : Tracked p)
    (hs : p.fetchStage? i = some s) (hx : s ≠ .exited) (he : e = .aborted → p.closed = true) :
    Tracked (p.endFetcher i w e) := by
  have hn : ¬ p.hasExited (.fetcher i) := by
    intro hg
    rw [show p.fetchStage? i = some .exited from hg] at hs
    exact hx (Option.some.inj hs).symm
  have hq : Steady (.fetcher i) p
      ((if w.stage.hasClient then p.record (.clientReleased i) else p).setFetcher i .exited) := by
    refine .setFetcher ?_
    split
    · exact .record (.refl p) rfl
    · exact .refl p
  have hended : ((if w.stage.hasClient then p.record (.clientReleased i) else p).setFetcher i
      .exited).hasExited (.fetcher i) := by
    split
    · exact fetchStage?_of_setFetcher hs rfl
    · exact fetchStage?_of_setFetcher hs rfl
  have ht := h.of_steady hq hn
  refine ⟨ht.toRoster.endWorker (fun e => ?_) hended, ht.toUpset.endWorker fun ha => ?_⟩
  · rw [hq.exits_log]
    exact h.not_mem_exit hn
  · rw [hq.closed]
    exact he ha

theorem endEmitter {j : Nat} {s : EmitStage} {e : Ending} (h : Tracked p)
    (hs : p.emitStage? j = some s) (hx : s ≠ .exited) (he : e = .aborted → p.closed = true) :
    Tracked (p.endEmitter j e) := by
  have hn : ¬ p.hasExited (.emitter j) := by
    intro hg
    rw [show p.emitStage? j = some .exited from hg] at hs
    exact hx (Option.some.inj hs).symm
  have hq : Steady (.emitter j) p (p.setEmitter j .exited) := .setEmitter (.refl p)
  have hended : (p.setEmitter j .exited).hasExited (.emitter j) :=
    emitStage?_of_setEmitter hs rfl
  have ht := h.of_steady hq hn
  refine ⟨ht.toRoster.endWorker (fun e => ?_) hended, ht.toUpset.endWorker fun ha => ?_⟩
  · rw [hq.exits_log]
    exact h.not_mem_exit hn
  · rw [hq.closed]
    exact he ha

/-- A fetch worker that has not ended goes on. -/
theorem fetcher_of_steady {i : Nat} {s : FetchStage} (h : Tracked p)
    (hs : p.fetchStage? i = some s) (hx : s ≠ .exited) (hq : Steady (.fetcher i) p q) :
    Tracked q := by
  refine h.of_steady hq fun hg => ?_
  rw [show p.fetchStage? i = some .exited from hg] at hs
  exact hx (Option.some.inj hs).symm

theorem afterFetcherPoll {i : Nat} {w : Fetcher} {s : FetchStage} {v : Pipeline × Verdict}
    (h : Tracked v.1) (hs : v.1.fetchStage? i = some s) (hx : s ≠ .exited) :
    Tracked (afterFetcherPoll i w v) := by
  obtain ⟨q, v⟩ := v
  cases v with
  | failed e => exact h.endFetcher hs hx (by simp)
  | active b =>
    have hr : Steady (.fetcher i) q (q.releaseTracker (.fetcher i)) := .quiet (.refl q) rfl
    exact h.fetcher_of_steady hs hx hr.queueFetcher
  | injecting i => exact h.fetcher_of_steady hs hx (.setFetcher (.refl q))

theorem tryPoll {i : Nat} {w : Fetcher} {s : FetchStage} (h : Tracked p)
    (hs : p.fetchStage? i = some s) (hx : s ≠ .exited) : Tracked (p.tryPoll i w) := by
  unfold Pipeline.tryPoll
  split
  · have hr : Tracked (p.requestTracker (.fetcher i)) :=
      h.call_of_steady (n := 0) (.quiet (.refl p) rfl)
    refine afterFetcherPoll (hr.poll _) ?_ hx
    rw [(Polled.poll _ _).fetchStage]
    exact hs
  · exact h.fetcher_of_steady hs hx (.queueFetcher (.refl p))

theorem finishItem {i since : Nat} {w : Fetcher} {item : WorkItem} {o : Outcome} {s : FetchStage}
    (h : Tracked p) (hs : p.fetchStage? i = some s) (hx : s ≠ .exited) :
    Tracked (p.finishItem i w item o since) := by
  refine tryPoll ?_ hs hx
  have hr : Steady (.call 0) p (p.record (.reported i item o (p.now - since))) :=
    .record (.refl p) rfl
  exact h.call_of_steady (hr.quiet rfl)

theorem invocation {n : Nat} {r : Request} (h : Tracked p) (hi : Invocation p n r q) :
    Tracked q := by
  have hp : Steady (.call n) p p := .refl p
  cases hi with
  | start | check | status | offer | batch | finish => exact h.call_of_steady (hp.quiet rfl)
  | batchRefused | batchTooLarge | batchEmpty | finishEarly | finishLate => exact h.reply
  | finishAgain => exact reply (h.call_of_steady (hp.quiet rfl))

theorem call {n : Nat} {s : CallStage} (h : Tracked p) (hc : CallMove p n s q) : Tracked q := by
  have hp : Steady (.call n) p p := .refl p
  cases hc with
  | startedBefore | offerRefused | unsent | batchRefused | noStops | read => exact h.reply
  | launching => exact h.setCall
  | launchFetcher | launchEmitter => exact setCall (h.call_of_steady hp.launch)
  | opened => exact reply (h.call_of_steady { hp with })
  | offerAccepted => exact h.call_of_steady (hp.quiet rfl)
  | offerPolled => exact afterOfferPoll (h.poll _)
  | offerInjected hi => exact afterOfferPoll (h.injected (inject?_injected hi))
  | sent | lastStop => exact reply (h.call_of_steady (.record (hp.quiet rfl) rfl))
  | batchAdmitted =>
    have htested := hp.record (e := .tested n p.intake.free) rfl
    exact reply (h.call_of_steady (.record (htested.quiet rfl) rfl))
  | batchExpired => exact reply (h.call_of_steady (hp.record rfl))
  | batchPaused => exact setCall (h.call_of_steady (hp.record rfl))
  | firstStop => exact h.queueFetchStop
  | nextStop => exact queueFetchStop (h.call_of_steady (.record (hp.quiet rfl) rfl))
  | stopStalled =>
    have hleave : Steady (.call n) p
        ({ p with intake := p.intake.leave (.call n) }.record
          (.handoffStalled (.call n) .fetchStop)) :=
      .record (hp.quiet rfl) rfl
    exact h.call_of_steady (hleave.quiet rfl)
  | stalledOut => exact h.fail.reply
  | checked => exact afterCheckPoll (h.poll _)
  | checkInjected hi => exact afterCheckPoll (h.injected (inject?_injected hi))

theorem fetcher {i : Nat} {w : Fetcher} (h : Tracked p) (hw : p.fetchers[i]? = some w)
    (hf : FetcherMove p i w q) : Tracked q := by
  have hs : p.fetchStage? i = some w.stage := by simp [fetchStage?, hw]
  have hp : Steady (.fetcher i) p p := .refl p
  have hc : Steady (.call 0) p p := .refl p
  cases hf with
  | abort hx ha =>
    exact h.endFetcher hs hx fun _ => h.toUpset.fetchers w (List.mem_of_getElem? hw) ha
  | create hst => exact h.fetcher_of_steady hs (by simp [hst]) hp.setFetcher
  | created hst =>
    have hr := hp.record (e := .clientCreated i) rfl
    exact h.fetcher_of_steady hs (by simp [hst]) hr.queueFetcher
  | notCreated hst he =>
    exact h.endFetcher hs (by simp [hst]) (by rintro rfl; simp at he)
  | acquire hst => exact h.fetcher_of_steady hs (by simp [hst]) hp.setFetcher
  | @receiveStop d ms hst =>
    have hr : Steady (.call 0) p
        ({ p with intake := { p.intake with messages := ms } }.record (.received i .stop)) :=
      .record (hc.quiet rfl) rfl
    exact endFetcher (h.call_of_steady (hr.quiet rfl)) hs (by simp [hst]) (by simp)
  | @receiveItem d item ms hst =>
    have hr : Steady (.fetcher i) p
        ({ p with intake := { p.intake with messages := ms } }.record
          (.received i (.data item))) :=
      .record (hp.quiet rfl) rfl
    exact h.fetcher_of_steady hs (by simp [hst]) (.record (.setFetcher (hr.quiet rfl)) rfl)
  | idle hst => exact tryPoll (h.call_of_steady (hc.quiet rfl)) hs (by simp [hst])
  | @handOver item since r payload hst =>
    have hr := hp.record (e := .processEnded i item r) rfl
    exact h.fetcher_of_steady hs (by simp [hst]) (.setFetcher (.record (hr.quiet rfl) rfl))
  | settle hst => exact finishItem (h.call_of_steady (hc.record rfl)) hs (by simp [hst])
  | lose hst _ he =>
    exact endFetcher (h.call_of_steady (hc.record rfl)) hs (by simp [hst])
      (by rintro rfl; simp at he)
  | handed hst =>
    exact finishItem (h.call_of_steady (.record (hc.quiet rfl) rfl)) hs (by simp [hst])
  | stalled hst =>
    exact endFetcher (h.call_of_steady (.record (hc.quiet rfl) rfl)) hs (by simp [hst]) (by simp)
  | injected hst hi =>
    have hi := inject?_injected hi
    have hstage : _ := (Idles.injected (t := .fetcher i) hi).stage i rfl
    refine afterFetcherPoll (h.injected hi) (s := w.stage) ?_ (by simp [hst])
    rcases hstage with hstage | ⟨hnone, -⟩
    · exact hstage.trans hs
    · rw [hs] at hnone; cases hnone

theorem emitter {j : Nat} {w : EmitWorker} (h : Tracked p) (hw : p.emitters[j]? = some w)
    (he : EmitterMove p j w q) : Tracked q := by
  have hs : p.emitStage? j = some w.stage := by simp [emitStage?, hw]
  have hp : Steady (.emitter j) p p := .refl p
  have hc : Steady (.call 0) p p := .refl p
  have hn (hx : w.stage ≠ .exited) : ¬ p.hasExited (.emitter j) := by
    intro hg
    rw [show p.emitStage? j = some .exited from hg] at hs
    exact hx (Option.some.inj hs).symm
  cases he with
  | abort hx ha =>
    exact h.endEmitter hs hx fun _ => h.toUpset.emitters w (List.mem_of_getElem? hw) ha
  | queue hst => exact h.of_steady hp.queueEmitter (hn (by simp [hst]))
  | acquire hst => exact h.of_steady hp.setEmitter (hn (by simp [hst]))
  | takeStop hst =>
    exact endEmitter (h.call_of_steady (.record (hc.quiet rfl) rfl)) hs (by simp [hst]) (by simp)
  | takePayload hst =>
    exact h.of_steady (.record (.setEmitter (.record (hp.quiet rfl) rfl)) rfl)
      (hn (by simp [hst]))
  | @delivered payload r hst =>
    have hr := hp.record (e := .emitEnded j payload r) rfl
    exact h.of_steady hr.queueEmitter (hn (by simp [hst]))
  | failed hst he =>
    exact endEmitter (h.call_of_steady (hc.record rfl)) hs (by simp [hst])
      (by rintro rfl; simp at he)

theorem move (h : Tracked p) (hm : Move p q) : Tracked q := by
  have hp : Steady (.call 0) p p := .refl p
  cases hm with
  | @invoke n r q hn hi =>
    have hr := hp.record (e := .invoked n r) rfl
    exact (h.call_of_steady hr).invocation hi
  | @cancel n =>
    exact h.call_of_steady
      (.record (q := { p.release (.call n) with calls := _ }) (hp.quiet rfl) rfl)
  | close =>
    unfold Pipeline.close
    split
    · next hc => exact ⟨h.toRoster.record rfl, h.toUpset.tearDown hc rfl rfl rfl rfl⟩
    · exact ⟨h.toRoster.abortAll.record rfl, h.toUpset.tearDown rfl rfl rfl rfl rfl⟩
  | drop => exact ⟨h.toRoster.abortAll.record rfl, h.toUpset.tearDown rfl rfl rfl rfl rfl⟩
  | tick => exact h.call_of_steady (hp.quiet rfl)
  | call hm hc => exact h.call hc
  | fetcher hw hf => exact h.fetcher hw hf
  | emitter hw he => exact h.emitter hw he

end Tracked

namespace Roster

variable {p : Pipeline}

theorem mem_exit_of_collection {x : Task × Ending} (h : Roster p)
    (hm : x ∈ p.history.log Event.collection) : x ∈ p.history.log Event.exit := by
  rw [h.exits]
  exact List.mem_append_left _ hm

/-- Only workers that the settings ask for end. -/
theorem mem_allWorkers {t : Task} {e : Ending} (h : Roster p) (hs : Staffed p)
    (hm : (t, e) ∈ p.history.log Event.exit) : t ∈ p.allWorkers := by
  have hg := h.gone t e hm
  simp only [allWorkers, List.mem_append, List.mem_map, List.mem_range]
  cases t with
  | fetcher i =>
    obtain ⟨w, hw, -⟩ := Option.map_eq_some_iff.mp hg
    have := (List.getElem?_eq_some_iff.mp hw).1
    exact .inl ⟨i, Nat.lt_of_lt_of_le this hs.fetchers_le, rfl⟩
  | emitter j =>
    obtain ⟨w, hw, -⟩ := Option.map_eq_some_iff.mp hg
    have := (List.getElem?_eq_some_iff.mp hw).1
    exact .inr ⟨j, Nat.lt_of_lt_of_le this hs.emitters_le, rfl⟩
  | call n => exact hg.elim

theorem collected_nodup (h : Roster p) :
    ((p.history.log Event.collection).map Prod.fst).Nodup := by
  have hn := h.nodup
  rw [h.exits, List.map_append] at hn
  exact hn.of_append_left

theorem finishers_subset_pool {l : List (Task × Ending)} (role : Role) (h : Roster p)
    (hs : Staffed p) (hl : l ⊆ p.history.log Event.exit) : finishers role l ⊆ p.pool role := by
  intro t ht
  obtain ⟨hm, hr⟩ := mem_finishers.mp ht
  have hw := h.mem_allWorkers hs (hl hm)
  cases t <;> cases hr <;> simpa [allWorkers, pool] using hw

/-- If as many workers of a pool finished as there are in the pool, all of them did. -/
theorem pool_finished {l : List (Task × Ending)} {t : Task} (role : Role) (h : Roster p)
    (hs : Staffed p) (hn : (l.map Prod.fst).Nodup) (hl : l ⊆ p.history.log Event.exit)
    (hlen : (p.pool role).length ≤ (finishers role l).length) (ht : t ∈ p.pool role) :
    (t, .finished) ∈ l := by
  have hsub := h.finishers_subset_pool role hs hl
  have hperm := (List.subperm_of_subset (hn.sublist (finishers_sublist _ _)) hsub).perm_of_length_le
    hlen
  exact (mem_finishers.mp (hperm.mem_iff.mpr ht)).1

/-- If all workers of a pool finished, as many did as there are in the pool. -/
theorem pool_counted {l : List (Task × Ending)} (role : Role) (h : Roster p) (hs : Staffed p)
    (hn : (l.map Prod.fst).Nodup) (hl : l ⊆ p.history.log Event.exit)
    (hin : ∀ t ∈ p.pool role, (t, .finished) ∈ l) :
    (finishers role l).length = (p.pool role).length := by
  have hpool : (p.pool role).Nodup := by
    cases role with
    | fetch => exact List.nodup_range.map fun i j h => Task.fetcher.inj h
    | emit => exact List.nodup_range.map fun i j h => Task.emitter.inj h
  refine ((List.perm_ext_iff_of_nodup (hn.sublist (finishers_sublist _ _)) hpool).mpr ?_).length_eq
  intro t
  refine ⟨fun ht => h.finishers_subset_pool role hs hl ht, fun ht => ?_⟩
  refine mem_finishers.mpr ⟨hin t ht, ?_⟩
  cases role <;> obtain ⟨i, -, rfl⟩ := List.mem_map.mp ht <;> rfl

/-- Once the tracker has counted them all, every fetch worker has finished and been
collected. -/
theorem fetchers_finished (h : Roster p) (hs : Staffed p)
    (hf : p.tracker.fetchFinished = p.settings.numClients.toNat) {i : Nat}
    (hi : i < p.settings.numClients.toNat) :
    (.fetcher i, .finished) ∈ p.history.log Event.collection := by
  refine h.pool_finished .fetch hs h.collected_nodup
    (fun _ => h.mem_exit_of_collection) ?_ (by simpa [pool] using hi)
  rw [← h.fetchFinished, hf]
  simp [pool]

/-- Once the tracker has counted them all, every worker has ended and been collected. -/
theorem all_collected (h : Roster p) (hs : Staffed p)
    (hf : p.tracker.finished = p.settings.totalWorkers) {t : Task} (ht : t ∈ p.allWorkers) :
    ∃ e, (t, e) ∈ p.history.log Event.collection := by
  have hsub : (p.history.log Event.collection).map Prod.fst ⊆ p.allWorkers := by
    intro u hu
    obtain ⟨⟨u, e⟩, hm, rfl⟩ := List.mem_map.mp hu
    exact h.mem_allWorkers hs (h.mem_exit_of_collection hm)
  have hperm := (List.subperm_of_subset h.collected_nodup hsub).perm_of_length_le (by
    rw [List.length_map, ← h.finished, hf]
    simp [allWorkers, Settings.totalWorkers])
  obtain ⟨⟨u, e⟩, hm, rfl⟩ := List.mem_map.mp (hperm.mem_iff.mpr ht)
  exact ⟨e, hm⟩

end Roster

theorem tracked_of_build {settings : Settings} {origin : Instant} {p : Pipeline}
    (h : build settings origin = .built p) : Tracked p := by
  obtain ⟨-, -, rfl⟩ := build_eq_built h
  constructor <;> constructor <;> simp [finishers]

theorem Reaches.tracked {settings : Settings} {origin : Instant} {p q : Pipeline}
    (h : p.Reaches q) (hb : build settings origin = .built p) : Tracked q :=
  h.invariant (tracked_of_build hb) fun _ _ _ ih hm => ih.move hm

end Pipeline

end DocumentPipeline
