import DocumentPipeline.Proofs.Histories

/-! # What a completion poll leaves alone

A poll works on the tracker. Beside that it can close the pipeline, ask workers to
abort and join the senders of the outtake queue, and it records tracking events. All
else stays as it is.
-/
namespace DocumentPipeline

namespace Pipeline

/-- Where a fetch worker stands, if it has been launched. -/
def fetchStage? (p : Pipeline) (i : Nat) : Option FetchStage := p.fetchers[i]?.map (·.stage)

/-- Where an emit worker stands, if it has been launched. -/
def emitStage? (p : Pipeline) (j : Nat) : Option EmitStage := p.emitters[j]?.map (·.stage)

theorem fetchStage?_of_setFetcher {p q : Pipeline} {i : Nat} {s u : FetchStage}
    (h : p.fetchStage? i = some u) (hq : q.fetchers = (p.setFetcher i s).fetchers) :
    q.fetchStage? i = some s := by
  obtain ⟨w, hw, -⟩ := Option.map_eq_some_iff.mp h
  have hlen := (List.getElem?_eq_some_iff.mp hw).1
  simp [fetchStage?, hq, setFetcher, hlen]

theorem emitStage?_of_setEmitter {p q : Pipeline} {j : Nat} {s u : EmitStage}
    (h : p.emitStage? j = some u) (hq : q.emitters = (p.setEmitter j s).emitters) :
    q.emitStage? j = some s := by
  obtain ⟨w, hw, -⟩ := Option.map_eq_some_iff.mp h
  have hlen := (List.getElem?_eq_some_iff.mp hw).1
  simp [emitStage?, hq, setEmitter, hlen]

/-- What becomes of the fetch workers' abort requests: none is taken back, and when the pipeline
is closed, all workers that closing aborts have theirs. -/
structure Aborts (p q : Pipeline) : Prop where
  abortable : q.abortable = p.abortable
  closed : p.closed = true → q.closed = true
  closing : q.closed = true → p.closed = true ∨ q.shuttingDown = true ∧
    ∀ (i : Nat) (w : Fetcher), q.fetchers[i]? = some w → .fetcher i ∈ q.abortable →
      w.abortRequested = true
  asked : ∀ (i : Nat) (w : Fetcher), q.fetchers[i]? = some w →
    ∃ u : Fetcher, p.fetchers[i]? = some u ∧ (u.abortRequested = true → w.abortRequested = true)

namespace Aborts

variable {p q r : Pipeline}

theorem silent (ha : q.abortable = p.abortable) (hc : q.closed = p.closed)
    (hf : q.fetchers = p.fetchers) : Aborts p q where
  abortable := ha
  closed h := hc.trans h
  closing h := .inl (hc.symm.trans h)
  asked _ w hw := ⟨w, hf ▸ hw, id⟩

theorem refl (p : Pipeline) : Aborts p p := silent rfl rfl rfl

theorem trans (hpq : Aborts p q) (hqr : Aborts q r)
    (hd : q.shuttingDown = true → r.shuttingDown = true) : Aborts p r where
  abortable := hqr.abortable.trans hpq.abortable
  closed h := hqr.closed (hpq.closed h)
  closing h := by
    rcases hqr.closing h with hq | hr
    · refine (hpq.closing hq).imp_right fun ⟨hdown, hall⟩ => ⟨hd hdown, fun i w hw hi => ?_⟩
      obtain ⟨u, hu, hasked⟩ := hqr.asked i w hw
      exact hasked (hall i u hu (hqr.abortable ▸ hi))
    · exact .inr hr
  asked i w hw := by
    obtain ⟨u, hu, huw⟩ := hqr.asked i w hw
    obtain ⟨v, hv, hvu⟩ := hpq.asked i u hu
    exact ⟨v, hv, fun h => huw (hvu h)⟩

theorem abortAll (p : Pipeline) : Aborts p p.abortAll where
  abortable := rfl
  closed _ := rfl
  closing _ := by
    refine .inr ⟨rfl, fun i w hw hi => ?_⟩
    obtain ⟨u, -, rfl⟩ := Option.map_eq_some_iff.mp (List.getElem?_mapIdx.symm.trans hw)
    have hi : .fetcher i ∈ p.abortable := hi
    simp [hi]
  asked i w hw := by
    obtain ⟨u, hu, rfl⟩ := Option.map_eq_some_iff.mp (List.getElem?_mapIdx.symm.trans hw)
    refine ⟨u, hu, fun h => ?_⟩
    split
    · rfl
    · exact h

theorem setFetcher {i : Nat} {s : FetchStage} (p : Pipeline) : Aborts p (p.setFetcher i s) where
  abortable := rfl
  closed := id
  closing := .inl
  asked k w hw := by
    simp only [Pipeline.setFetcher, List.getElem?_modify, Option.map_eq_map,
      Option.map_eq_some_iff] at hw
    obtain ⟨u, hu, rfl⟩ := hw
    exact ⟨u, hu, fun h => by split <;> exact h⟩

end Aborts

/-- What every part of a completion poll keeps. -/
structure Polled (p q : Pipeline) : Prop extends Aborts p q where
  settings : q.settings = p.settings
  now : q.now = p.now
  started : q.started = p.started
  stopsClaimed : q.stopsClaimed = p.stopsClaimed
  shuttingDown : p.shuttingDown = true → q.shuttingDown = true
  intake : q.intake = p.intake
  messages : q.outtake.messages = p.outtake.messages
  producerLock : q.producerLock = p.producerLock
  trackerLock : q.trackerLock = p.trackerLock
  calls : q.calls = p.calls
  totalProcessed : q.totalProcessed = p.totalProcessed
  fetchers : q.fetchers.length = p.fetchers.length
  emitters : q.emitters.length = p.emitters.length
  fetchStage : ∀ i, q.fetchStage? i = p.fetchStage? i
  emitStage : ∀ j, q.emitStage? j = p.emitStage? j
  history : History.Adds (fun e => e.isTracking = true) p.history q.history

namespace Polled

variable {p q r : Pipeline}

theorem refl (p : Pipeline) : Polled p p where
  toAborts := .refl p
  settings := rfl
  now := rfl
  started := rfl
  stopsClaimed := rfl
  shuttingDown := id
  intake := rfl
  messages := rfl
  producerLock := rfl
  trackerLock := rfl
  calls := rfl
  totalProcessed := rfl
  fetchers := rfl
  emitters := rfl
  fetchStage _ := rfl
  emitStage _ := rfl
  history := .refl _

theorem trans (hpq : Polled p q) (hqr : Polled q r) : Polled p r where
  toAborts := hpq.toAborts.trans hqr.toAborts hqr.shuttingDown
  settings := hqr.settings.trans hpq.settings
  now := hqr.now.trans hpq.now
  started := hqr.started.trans hpq.started
  stopsClaimed := hqr.stopsClaimed.trans hpq.stopsClaimed
  shuttingDown h := hqr.shuttingDown (hpq.shuttingDown h)
  intake := hqr.intake.trans hpq.intake
  messages := hqr.messages.trans hpq.messages
  producerLock := hqr.producerLock.trans hpq.producerLock
  trackerLock := hqr.trackerLock.trans hpq.trackerLock
  calls := hqr.calls.trans hpq.calls
  totalProcessed := hqr.totalProcessed.trans hpq.totalProcessed
  fetchers := hqr.fetchers.trans hpq.fetchers
  emitters := hqr.emitters.trans hpq.emitters
  fetchStage i := (hqr.fetchStage i).trans (hpq.fetchStage i)
  emitStage j := (hqr.emitStage j).trans (hpq.emitStage j)
  history := hpq.history.trans hqr.history

/-- A change of the tracker alone, with a tracking event. -/
theorem track (p : Pipeline) (tracker : Tracker) {e : Event} (he : e.isTracking = true) :
    Polled p ({ p with tracker }.record e) :=
  { refl p with history := .one he }

theorem abortAll (p : Pipeline) : Polled p p.abortAll where
  __ := refl p
  toAborts := .abortAll p
  shuttingDown _ := rfl
  fetchers := by simp [Pipeline.abortAll]
  emitters := by simp [Pipeline.abortAll]
  fetchStage i := by
    simp only [fetchStage?, Pipeline.abortAll, List.getElem?_mapIdx, Option.map_map]
    congr 1
    funext w
    simp only [Function.comp_apply]
    split <;> rfl
  emitStage j := by
    simp only [emitStage?, Pipeline.abortAll, List.getElem?_mapIdx, Option.map_map]
    congr 1
    funext w
    simp only [Function.comp_apply]
    split <;> rfl

theorem fail (p : Pipeline) (f : Failure) : Polled p (p.fail f) :=
  (abortAll p).trans (track p.abortAll _ rfl)

theorem countExit (p : Pipeline) (exits : List (Task × Ending)) (t : Task) (e : Ending) :
    Polled p ({ p with tracker := { p.tracker with exits } }.countExit t e) :=
  track p _ rfl

theorem collectFrom (p : Pipeline) (exits : List (Task × Ending)) :
    Polled p (p.collectFrom exits).1 := by
  induction exits generalizing p with
  | nil => exact refl p
  | cons x rest ih =>
    obtain ⟨t, e⟩ := x
    have hc := countExit p rest t e
    rw [Pipeline.collectFrom]
    split
    · exact hc.trans (ih _)
    · exact hc.trans (fail _ _)

theorem queueEmitStop (p : Pipeline) (t : Task) (n : Nat) : Polled p (p.queueEmitStop t n).1 :=
  { refl p with history := .one rfl }

theorem endInjection (p : Pipeline) : Polled p p.endInjection.1 := { refl p with }

theorem poll (p : Pipeline) (t : Task) : Polled p (p.poll t).1 := by
  have hc : Polled p p.collect.1 := collectFrom p _
  unfold Pipeline.poll
  split
  · exact refl p
  · split
    · exact refl p
    · split
      · next hf => rw [hf] at hc; exact hc
      · next hf =>
        rw [hf] at hc
        split
        · split
          · exact hc.trans (endInjection _)
          · exact hc.trans (queueEmitStop _ t _)
        · exact hc

theorem of_collect {f : Option Failure} (hc : p.collect = (q, f)) : Polled p q := by
  have := collectFrom p p.tracker.exits
  rwa [show p.collectFrom p.tracker.exits = (q, f) from hc] at this

/-- A log that ignores tracking events stays as it is. -/
theorem log {α : Type} (h : Polled p q) {f : Event → List α}
    (hf : ∀ e, e.isTracking = true → f e = []) : q.history.log f = p.history.log f :=
  h.history.log hf

end Polled

section Collecting

variable {p q : Pipeline} {t : Task}

/-- A poll collects workers and finds no failure among them. -/
structure Collects (p q : Pipeline) : Prop where
  failure : q.tracker.failure = p.tracker.failure
  sent : q.tracker.emitStopSent = p.tracker.emitStopSent
  outtake : q.outtake = p.outtake
  history : History.Adds (fun e => ∃ t ending, e = .collected t ending) p.history q.history

theorem collects_countExit (p : Pipeline) (exits : List (Task × Ending)) (e : Ending) :
    Collects p ({ p with tracker := { p.tracker with exits } }.countExit t e) := by
  refine ⟨?_, ?_, rfl, .one ⟨t, e, rfl⟩⟩
  · simp only [countExit, record]
    split <;> rfl
  · simp only [countExit, record]
    split <;> rfl

theorem Collects.trans {r : Pipeline} (hpq : Collects p q) (hqr : Collects q r) : Collects p r :=
  ⟨hqr.failure.trans hpq.failure, hqr.sent.trans hpq.sent, hqr.outtake.trans hpq.outtake,
    hpq.history.trans hqr.history⟩

/-- A collection ends with the first failure it finds. -/
theorem collectFrom_collects (p : Pipeline) (exits : List (Task × Ending)) :
    (∃ q, Collects p q ∧ p.collectFrom exits = (q, none)) ∨
      ∃ q f, Collects p q ∧ p.collectFrom exits = (q.fail f, some f) := by
  induction exits generalizing p with
  | nil => exact .inl ⟨p, ⟨rfl, rfl, rfl, .refl _⟩, rfl⟩
  | cons x rest ih =>
    obtain ⟨t, e⟩ := x
    have hc := collects_countExit (t := t) p rest e
    rw [collectFrom]
    split
    · rcases ih ({ p with tracker := { p.tracker with exits := rest } }.countExit t e) with
        ⟨q, hq, he⟩ | ⟨q, f, hq, he⟩
      · exact .inl ⟨q, hc.trans hq, he⟩
      · exact .inr ⟨q, f, hc.trans hq, he⟩
    · next f hf => exact .inr ⟨_, f, hc, rfl⟩

theorem collects_of_collect (hc : p.collect = (q, none)) : Collects p q := by
  rcases collectFrom_collects p p.tracker.exits with ⟨r, hr, he⟩ | ⟨r, f, hr, he⟩
  · obtain rfl : q = r := congrArg Prod.fst (hc.symm.trans he)
    exact hr
  · cases hc.symm.trans he

theorem collects_of_collect_failed {f : Failure} (hc : p.collect = (q, some f)) :
    ∃ r, Collects p r ∧ q = r.fail f := by
  rcases collectFrom_collects p p.tracker.exits with ⟨r, hr, he⟩ | ⟨r, g, hr, he⟩
  · cases hc.symm.trans he
  · have := hc.symm.trans he
    simp only [Prod.mk.injEq, Option.some.injEq] at this
    obtain ⟨rfl, rfl⟩ := this
    exact ⟨r, hr, rfl⟩

/-- Collecting workers does not touch the outtake queue. -/
theorem outtake_of_collect {f : Option Failure} (hc : p.collect = (q, f)) :
    q.outtake = p.outtake := by
  cases f with
  | none => exact (collects_of_collect hc).outtake
  | some f =>
    obtain ⟨r, hr, rfl⟩ := collects_of_collect_failed hc
    exact hr.outtake

end Collecting

end Pipeline

end DocumentPipeline
