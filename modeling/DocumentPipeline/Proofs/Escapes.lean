import DocumentPipeline.Proofs.Verdicts

/-! # Who is asked to abort

Closing the pipeline asks the workers to abort that it knows of, and it comes to know them when
the launch is over. So the workers of a closed pipeline have been asked to abort, with one
exception: if the pipeline was closed before the launch was over, the workers run on in it, and
closing it again does not reach them. Only a failure that is latched and the end of the pipeline
itself do.
-/
namespace DocumentPipeline

namespace Event

/-- Whether the event closes the pipeline. -/
@[simp] def shuts : Event → Bool
  | closed | dropped | latched _ => true
  | _ => false

/-- Whether the event opens the pipeline or closes it. -/
@[simp] def isGate : Event → Bool
  | replied _ .started => true
  | e => e.shuts

end Event

namespace History

/-- Whether the call that launches the workers has returned. -/
def opened : History → Bool
  | [] => false
  | x :: h =>
    match x.event with
    | .replied _ .started => true
    | _ => opened h

/-- Whether something has closed the pipeline. -/
def shut (h : History) : Bool := h.any (·.event.shuts)

/-- Whether the workers were launched into a closed pipeline, and nothing has asked them to abort
since. -/
def escaped : History → Bool
  | [] => false
  | x :: h =>
    match x.event with
    | .replied _ .started => escaped h || !opened h && shut h
    | .dropped | .latched _ => false
    | _ => escaped h

variable {x : Entry} {h : History}

theorem opened_of_not_isGate (hx : x.event.isGate = false) : opened (x :: h) = opened h := by
  obtain ⟨time, e⟩ := x
  cases e with
  | replied n a => cases a <;> simp_all [opened]
  | _ => simp_all [opened]

theorem shut_of_not_isGate (hx : x.event.isGate = false) : shut (x :: h) = shut h := by
  obtain ⟨time, e⟩ := x
  cases e with
  | replied n a => cases a <;> simp_all [shut]
  | _ => simp_all [shut]

theorem escaped_of_not_isGate (hx : x.event.isGate = false) : escaped (x :: h) = escaped h := by
  obtain ⟨time, e⟩ := x
  cases e with
  | replied n a => cases a <;> simp_all [escaped]
  | _ => simp_all [escaped]

end History

namespace Pipeline

/-- Whether each launched worker was asked to abort. -/
def flags (p : Pipeline) : List Bool :=
  p.fetchers.map (·.abortRequested) ++ p.emitters.map (·.abortRequested)

/-- Whether a worker has been launched. -/
def isLaunched (p : Pipeline) : Task → Prop
  | .fetcher i => i < p.fetchers.length
  | .emitter j => j < p.emitters.length
  | .call _ => False

/-- Whether a worker has been asked to abort. -/
def isAsked (p : Pipeline) : Task → Prop
  | .fetcher i => ∃ w, p.fetchers[i]? = some w ∧ w.abortRequested = true
  | .emitter j => ∃ w, p.emitters[j]? = some w ∧ w.abortRequested = true
  | .call _ => False

theorem isAsked_of_flags {p : Pipeline} {t : Task} (h : ∀ b ∈ p.flags, b = true)
    (ht : p.isLaunched t) : p.isAsked t := by
  cases t with
  | fetcher i =>
    refine ⟨p.fetchers.get ⟨i, ht⟩, List.getElem?_eq_getElem ht, h _ ?_⟩
    exact List.mem_append_left _ (List.mem_map_of_mem (List.getElem_mem ht))
  | emitter j =>
    refine ⟨p.emitters.get ⟨j, ht⟩, List.getElem?_eq_getElem ht, h _ ?_⟩
    exact List.mem_append_right _ (List.mem_map_of_mem (List.getElem_mem ht))
  | call n => exact ht

theorem not_isAsked_of_flags {p : Pipeline} {t : Task} (h : ∀ b ∈ p.flags, b = false) :
    ¬ p.isAsked t := by
  cases t with
  | fetcher i =>
    rintro ⟨w, hw, ha⟩
    have := h w.abortRequested
      (List.mem_append_left _ (List.mem_map_of_mem (List.mem_of_getElem? hw)))
    rw [ha] at this
    cases this
  | emitter j =>
    rintro ⟨w, hw, ha⟩
    have := h w.abortRequested
      (List.mem_append_right _ (List.mem_map_of_mem (List.mem_of_getElem? hw)))
    rw [ha] at this
    cases this
  | call n => exact id

/-- What the abort of the workers rests on. -/
def watch (p : Pipeline) : Settings × Bool × Bool × Bool × List Task × List Fetcher ×
    List EmitWorker × History :=
  (p.settings, p.started, p.stopsClaimed, p.closed, p.abortable, p.fetchers, p.emitters,
    p.history)

/-- The pipeline is neither opened nor closed, and no worker is launched or asked to abort. -/
structure Undisturbed (p q : Pipeline) : Prop where
  settings : q.settings = p.settings
  started : q.started = p.started
  stopsClaimed : q.stopsClaimed = true →
    p.stopsClaimed = true ∨ p.started = true ∧ p.closed = false
  closed : q.closed = p.closed
  abortable : q.abortable = p.abortable
  flags : q.flags = p.flags
  history : History.Adds (fun e => e.isGate = false) p.history q.history

namespace Undisturbed

variable {p q r : Pipeline} {t : Task} {n : Nat}

theorem refl (p : Pipeline) : Undisturbed p p := ⟨rfl, rfl, .inl, rfl, rfl, rfl, .refl _⟩

theorem trans (hpq : Undisturbed p q) (hqr : Undisturbed q r) : Undisturbed p r where
  settings := hqr.settings.trans hpq.settings
  started := hqr.started.trans hpq.started
  stopsClaimed h := by
    rcases hqr.stopsClaimed h with hq | hc
    · exact hpq.stopsClaimed hq
    · exact .inr ⟨hpq.started.symm.trans hc.1, hpq.closed.symm.trans hc.2⟩
  closed := hqr.closed.trans hpq.closed
  abortable := hqr.abortable.trans hpq.abortable
  flags := hqr.flags.trans hpq.flags
  history := hpq.history.trans hqr.history

/-- Nothing happens to the workers and nothing is recorded. -/
theorem quiet (h : Undisturbed p q) (hr : r.watch = q.watch) : Undisturbed p r := by
  simp only [watch, Prod.mk.injEq] at hr
  obtain ⟨hs, ho, hm, hc, ha, hf, he, hh⟩ := hr
  exact h.trans ⟨hs, ho, fun h => .inl (hm ▸ h), hc, ha, by rw [Pipeline.flags, hf, he]; rfl,
    hh ▸ .refl _⟩

theorem record {e : Event} (h : Undisturbed p q) (he : e.isGate = false) :
    Undisturbed p (q.record e) :=
  h.trans ⟨rfl, rfl, .inl, rfl, rfl, rfl, .one he⟩

/-- One event is recorded, and nothing else happens to the workers. -/
theorem noting {e : Event} (h : Undisturbed p q) (hr : r.watch = (q.record e).watch)
    (he : e.isGate = false) : Undisturbed p r :=
  (h.record he).quiet hr

theorem reply {a : Reply} (h : Undisturbed p q) (ha : (Event.replied n a).isGate = false) :
    Undisturbed p (q.reply n a) :=
  h.noting rfl ha

theorem setFetcher {i : Nat} {s : FetchStage} (h : Undisturbed p q) :
    Undisturbed p (q.setFetcher i s) := by
  refine h.trans ⟨rfl, rfl, .inl, rfl, rfl, ?_, .refl _⟩
  simp only [Pipeline.flags, Pipeline.setFetcher]
  congr 1
  refine List.ext_getElem? fun k => ?_
  simp only [List.getElem?_map, List.getElem?_modify]
  by_cases hk : i = k
  · subst hk
    cases q.fetchers[i]? <;> simp
  · simp [hk]

theorem setEmitter {j : Nat} {s : EmitStage} (h : Undisturbed p q) :
    Undisturbed p (q.setEmitter j s) := by
  refine h.trans ⟨rfl, rfl, .inl, rfl, rfl, ?_, .refl _⟩
  simp only [Pipeline.flags, Pipeline.setEmitter]
  congr 1
  refine List.ext_getElem? fun k => ?_
  simp only [List.getElem?_map, List.getElem?_modify]
  by_cases hk : j = k
  · subst hk
    cases q.emitters[j]? <;> simp
  · simp [hk]

theorem endFetcher {i : Nat} {w : Fetcher} {e : Ending} (h : Undisturbed p q) :
    Undisturbed p (q.endFetcher i w e) := by
  unfold Pipeline.endFetcher
  have hend {r : Pipeline} (hr : Undisturbed p r) :
      Undisturbed p ((r.setFetcher i .exited).endWorker (.fetcher i) e) :=
    noting hr.setFetcher rfl (e := .exited (.fetcher i) e) rfl
  refine hend ?_
  split
  · exact h.record rfl
  · exact h

theorem endEmitter {j : Nat} {e : Ending} (h : Undisturbed p q) :
    Undisturbed p (q.endEmitter j e) :=
  noting h.setEmitter rfl (e := .exited (.emitter j) e) rfl

theorem queueFetcher {i : Nat} (h : Undisturbed p q) : Undisturbed p (q.queueFetcher i) :=
  quiet (q := q.setFetcher i .queuing) h.setFetcher rfl

theorem queueEmitter {j : Nat} (h : Undisturbed p q) : Undisturbed p (q.queueEmitter j) :=
  quiet (q := q.setEmitter j .queuing) h.setEmitter rfl

theorem countExit {exits : List (Task × Ending)} {e : Ending} (h : Undisturbed p q) :
    Undisturbed p ({ q with tracker := { q.tracker with exits } }.countExit t e) :=
  h.noting (e := .collected t e) rfl rfl

theorem queueEmitStop {r : Nat} (h : Undisturbed p q) : Undisturbed p (q.queueEmitStop t r).1 :=
  h.noting rfl rfl (e := .handoffBegan t .emitStop)

theorem endInjection (h : Undisturbed p q) : Undisturbed p q.endInjection.1 := h.quiet rfl

theorem queueFetchStop {r : Nat} (h : Undisturbed p q) : Undisturbed p (q.queueFetchStop n r) :=
  h.noting rfl rfl (e := .handoffBegan (.call n) .fetchStop)

theorem invocation {a : Request} (h : Undisturbed p q) (hi : Invocation q n a r) :
    Undisturbed p r := by
  cases hi with
  | start | check | status | offer | batch => exact h.quiet rfl
  | batchRefused | batchTooLarge | batchEmpty | finishEarly | finishLate => exact h.reply rfl
  | finishAgain => exact .reply (q := { q with shuttingDown := true }) (h.quiet rfl) rfl
  | finish hs hc => exact h.trans ⟨rfl, rfl, fun _ => .inr ⟨hs, hc⟩, rfl, rfl, rfl, .refl _⟩

theorem emitter {j : Nat} {w : EmitWorker} (h : EmitterMove p j w q) : Undisturbed p q := by
  have hp : Undisturbed p p := refl p
  cases h with
  | abort => exact hp.endEmitter
  | queue => exact hp.queueEmitter
  | acquire => exact hp.setEmitter
  | takeStop => exact .endEmitter (hp.noting rfl rfl)
  | @takePayload payload ms =>
    have htaken : Undisturbed p
        ({ p with
            outtake := { p.outtake with messages := ms }
            outtakeLock := p.outtakeLock.release (.emitter j) }.record
          (.taken j (.data payload))) :=
      hp.noting rfl rfl
    exact .record htaken.setEmitter rfl
  | @delivered payload r =>
    have hended : Undisturbed p (p.record (.emitEnded j payload r)) := hp.record rfl
    exact hended.queueEmitter
  | failed => exact .endEmitter (hp.record rfl)

end Undisturbed

theorem flags_abortAll_of_nil {p : Pipeline} (h : p.abortable = []) :
    p.abortAll.flags = p.flags := by
  have hid {α : Type} (l : List α) : l.mapIdx (fun _ w => w) = l :=
    List.ext_getElem? fun i => by simp
  simp [flags, abortAll, h, hid]

/-- A pipeline that has been opened asks all of its workers to abort. -/
theorem flags_abortAll {p : Pipeline} (h : p.abortable = p.allWorkers) (hs : Staffed p) :
    ∀ b ∈ p.abortAll.flags, b = true := by
  intro b hb
  have hfetchers := hs.fetchers_le
  have hemitters := hs.emitters_le
  simp only [flags, abortAll, h, allWorkers, List.mem_append, List.mem_map] at hb
  rcases hb with ⟨w, hw, rfl⟩ | ⟨w, hw, rfl⟩
  · obtain ⟨i, hi, rfl⟩ := List.mem_mapIdx.mp hw
    simp [Nat.lt_of_lt_of_le hi hfetchers]
  · obtain ⟨j, hj, rfl⟩ := List.mem_mapIdx.mp hw
    simp [Nat.lt_of_lt_of_le hj hemitters]

/-- The workers of a closed pipeline have been asked to abort, unless they have escaped. -/
structure Watched (p : Pipeline) : Prop where
  opened : p.history.opened = p.started
  shut : p.history.shut = p.closed
  before : p.started = false → p.abortable = [] ∧ p.history.escaped = false
  after : p.started = true → p.abortable = p.allWorkers
  unasked : p.started = false ∨ p.history.escaped = true → ∀ b ∈ p.flags, b = false
  asked : p.started = true → p.closed = true → p.history.escaped = false →
    ∀ b ∈ p.flags, b = true
  escaped : p.history.escaped = true → p.closed = true
  claimed : p.stopsClaimed = true → p.started = true ∧ p.history.escaped = false

namespace Watched

variable {p q r : Pipeline} {t : Task} {n : Nat} {s : CallStage}

theorem undisturbed (h : Watched p) (hu : Undisturbed p q) : Watched q := by
  have hescaped : q.history.escaped = p.history.escaped :=
    hu.history.ignored fun _ _ => History.escaped_of_not_isGate
  constructor
  · rw [hu.started, ← h.opened]
    exact hu.history.ignored fun _ _ => History.opened_of_not_isGate
  · rw [hu.closed, ← h.shut]
    exact hu.history.ignored fun _ _ => History.shut_of_not_isGate
  · rw [hu.started, hu.abortable, hescaped]
    exact h.before
  · rw [hu.started, hu.abortable, show q.allWorkers = p.allWorkers by
      rw [allWorkers, hu.settings, ← allWorkers]]
    exact h.after
  · rw [hu.started, hescaped, hu.flags]
    exact h.unasked
  · rw [hu.started, hu.closed, hescaped, hu.flags]
    exact h.asked
  · rw [hescaped, hu.closed]
    exact h.escaped
  · intro hc
    rw [hu.started, hescaped]
    rcases hu.stopsClaimed hc with hp | ⟨hs, hopen⟩
    · exact h.claimed hp
    · refine ⟨hs, ?_⟩
      by_contra he
      rw [h.escaped (by simpa using he)] at hopen
      cases hopen

/-- All workers that can be reached are asked to abort. -/
theorem abort {e : Event} (h : Watched p) (hs : Staffed p) (he : e.shuts = true)
    (hx : History.escaped (⟨p.now, e⟩ :: p.history) = false) :
    Watched (p.abortAll.record e) := by
  have hopened : History.opened (⟨p.now, e⟩ :: p.history) = p.history.opened := by
    cases e <;> first | rfl | cases he
  constructor
  · exact hopened.trans h.opened
  · change (e.shuts || p.history.shut) = true
    rw [he, Bool.true_or]
  · exact fun hn => ⟨(h.before hn).1, hx⟩
  · exact h.after
  · rintro (hn | hn)
    · change ∀ b ∈ p.abortAll.flags, b = false
      rw [flags_abortAll_of_nil (h.before hn).1]
      exact h.unasked (.inl hn)
    · cases hx.symm.trans hn
  · exact fun ho _ _ => flags_abortAll (h.after ho) hs
  · exact fun _ => rfl
  · exact fun hc => ⟨(h.claimed hc).1, hx⟩

theorem fail {f : Failure} (h : Watched p) (hs : Staffed p) : Watched (p.fail f) :=
  (h.abort hs (e := .latched f) rfl rfl).undisturbed (.quiet (.refl _) rfl)

theorem close (h : Watched p) (hs : Staffed p) : Watched p.close := by
  unfold Pipeline.close
  split
  · next hc =>
    have hshut : p.history.shut = true := h.shut.trans hc
    refine { h with opened := h.opened, shut := ?_, escaped := h.escaped, claimed := h.claimed }
    exact hc.symm
  · next hc =>
    refine h.abort hs rfl ?_
    by_contra he
    exact hc (h.escaped (by simpa [History.escaped] using he))

theorem drop (h : Watched p) (hs : Staffed p) : Watched p.drop := h.abort hs rfl rfl

/-- A worker is launched before the pipeline is opened, so nothing has asked it to abort. -/
theorem launch {role : Role} (h : Watched p) (hn : p.started = false) :
    Watched (p.launch t role) := by
  have hflags : ∀ b ∈ (p.launch t role).flags, b = false := by
    intro b hb
    have hp := h.unasked (.inl hn)
    cases role <;> simp only [Pipeline.launch, record, flags, List.map_append, List.mem_append,
      List.map_cons, List.map_nil, List.mem_singleton] at hb hp <;> grind
  have hno {P : Prop} (ho : p.started = true) : P := by rw [hn] at ho; cases ho
  cases role <;>
    exact ⟨h.opened, h.shut, fun _ => h.before hn, hno, fun _ => hflags, hno, h.escaped,
      fun hc => hno (h.claimed hc).1⟩

/-- The launch is over: the workers have escaped if the pipeline has been closed. -/
theorem start (h : Watched p) (hn : p.started = false) :
    Watched
      ({ p with
          abortable := p.allWorkers
          tracker := { p.tracker with startedAt := some p.now }
          started := true }.reply n .started) := by
  have hescaped : History.escaped (⟨p.now, .replied n .started⟩ :: p.history) = p.closed := by
    simp [History.escaped, h.opened, h.shut, hn, (h.before hn).2]
  have hno {P : Prop} (ho : p.started = true) : P := by rw [hn] at ho; cases ho
  refine ⟨rfl, h.shut, fun hs => ?_, fun _ => rfl, fun _ => h.unasked (.inl hn),
    fun _ hc he => ?_, fun he => hescaped.symm.trans he, fun hc => hno (h.claimed hc).1⟩
  · cases hs
  · rw [show p.closed = true from hc] at hescaped
    cases hescaped.symm.trans he

/-- A start that comes when the workers have been launched changes nothing. -/
theorem startedBefore (h : Watched p) (hs : p.started = true) : Watched (p.reply n .started) := by
  have hescaped : History.escaped (⟨p.now, .replied n .started⟩ :: p.history) =
      p.history.escaped := by
    simp [History.escaped, h.opened, hs]
  refine ⟨hs.symm, h.shut, fun hn => ?_, h.after, fun he => h.unasked ?_, fun ho hc he => ?_,
    fun he => h.escaped (hescaped.symm.trans he), fun hc => ⟨hs, ?_⟩⟩
  · cases hs.symm.trans hn
  · exact he.imp id hescaped.symm.trans
  · exact h.asked ho hc (hescaped.symm.trans he)
  · exact hescaped.trans (h.claimed hc).2

theorem collectFrom {exits : List (Task × Ending)} (h : Watched p) (hs : Staffed p) :
    Watched (p.collectFrom exits).1 := by
  induction exits generalizing p with
  | nil => exact h
  | cons x rest ih =>
    obtain ⟨t, e⟩ := x
    have hc : Watched ({ p with tracker := { p.tracker with exits := rest } }.countExit t e) :=
      h.undisturbed (.countExit (.refl p))
    have hk : Staffed ({ p with tracker := { p.tracker with exits := rest } }.countExit t e) :=
      hs.of_kept (.of_polled (.countExit p rest t e))
    rw [Pipeline.collectFrom]
    split
    · exact ih hc hk
    · exact hc.fail hk

theorem collect {f : Option Failure} (h : Watched p) (hs : Staffed p) (hc : p.collect = (q, f)) :
    Watched q := by
  have : Watched (p.collectFrom p.tracker.exits).1 := h.collectFrom hs
  rwa [show p.collectFrom p.tracker.exits = (q, f) from hc] at this

theorem poll (h : Watched p) (hs : Staffed p) (t : Task) : Watched (p.poll t).1 := by
  have hr := poll_result p t
  generalize p.poll t = v at hr
  cases hr with
  | notStarted | latched => exact h
  | failed _ _ hc | active _ _ hc => exact h.collect hs hc
  | injecting _ _ hc => exact (h.collect hs hc).undisturbed (.queueEmitStop (.refl _))
  | noEmitters _ _ hc => exact (h.collect hs hc).undisturbed (.endInjection (.refl _))

theorem injected {i : Injection} {v : Pipeline × Verdict} (h : Watched p) (hs : Staffed p)
    (hi : Injected p t i v) : Watched v.1 := by
  have hp : Undisturbed p p := .refl p
  have hpush : Undisturbed p
      ({ p with outtake := p.outtake.push t .stop }.record (.stopQueued .emit)) :=
    hp.noting rfl rfl
  cases hi with
  | last => exact h.undisturbed hpush.endInjection
  | next => exact h.undisturbed hpush.queueEmitStop
  | @stalled q f _ _ hq =>
    subst hq
    have hleave : Undisturbed p
        ({ p with outtake := p.outtake.leave t }.record (.handoffStalled t .emitStop)) :=
      hp.noting rfl rfl
    exact fail (h.undisturbed (hleave.quiet rfl)) { hs with }

theorem afterOfferPoll {item : WorkItem} {wait : Wait} {v : Pipeline × Verdict}
    (h : Watched v.1) : Watched (afterOfferPoll n item wait v) := by
  obtain ⟨q, v⟩ := v
  cases v with
  | failed e => exact h.undisturbed (.reply (.refl q) rfl)
  | active b => exact h.undisturbed (.quiet (.refl q) rfl)
  | injecting i => exact h.undisturbed (.quiet (.refl q) rfl)

theorem afterCheckPoll {v : Pipeline × Verdict} (h : Watched v.1) :
    Watched (afterCheckPoll n v) := by
  obtain ⟨q, v⟩ := v
  cases v with
  | failed e => exact h.undisturbed (.reply (.refl q) rfl)
  | active b => exact h.undisturbed (.reply (.refl q) rfl)
  | injecting i => exact h.undisturbed (.quiet (.refl q) rfl)

theorem afterFetcherPoll {i : Nat} {w : Fetcher} {v : Pipeline × Verdict} (h : Watched v.1) :
    Watched (afterFetcherPoll i w v) := by
  obtain ⟨q, v⟩ := v
  have hq : Undisturbed q q := .refl q
  cases v with
  | failed e => exact h.undisturbed hq.endFetcher
  | active b =>
    have hreleased : Undisturbed q (q.releaseTracker (.fetcher i)) := hq.quiet rfl
    exact h.undisturbed hreleased.queueFetcher
  | injecting i => exact h.undisturbed hq.setFetcher

theorem tryPoll {i : Nat} {w : Fetcher} (h : Watched p) (hs : Staffed p) :
    Watched (p.tryPoll i w) := by
  unfold Pipeline.tryPoll
  split
  · have hr : Watched (p.requestTracker (.fetcher i)) := h.undisturbed (.quiet (.refl p) rfl)
    exact afterFetcherPoll (hr.poll hs.requestTracker _)
  · exact h.undisturbed (.queueFetcher (.refl p))

theorem call (h : Watched p) (hs : Staffed p) (hm : (n, s) ∈ p.calls) (hc : CallMove p n s q) :
    Watched q := by
  have hp : Undisturbed p p := .refl p
  cases hc with
  | startedBefore _ ho => exact h.startedBefore ho
  | offerRefused | unsent | batchRefused | noStops | read => exact h.undisturbed (hp.reply rfl)
  | launching | offerAccepted => exact h.undisturbed (hp.quiet rfl)
  | @launchFetcher c =>
    have hq : Watched (p.launch (.fetcher c) .fetch) := h.launch (hs.launching n _ hm).1
    exact hq.undisturbed (.quiet (.refl _) rfl)
  | @launchEmitter c =>
    have hq : Watched (p.launch (.emitter (c - p.settings.numClients.toNat)) .emit) :=
      h.launch (hs.launching n _ hm).1
    exact hq.undisturbed (.quiet (.refl _) rfl)
  | opened => exact h.start (hs.launching n _ hm).1
  | offerPolled => exact afterOfferPoll (h.poll hs _)
  | offerInjected hi => exact afterOfferPoll (h.injected hs (inject?_injected hi))
  | sent | lastStop => exact h.undisturbed (.reply (hp.noting rfl rfl) rfl)
  | batchAdmitted =>
    have htested : Undisturbed p (p.record (.tested n p.intake.free)) := hp.record rfl
    exact h.undisturbed (.reply (htested.noting rfl rfl) rfl)
  | batchExpired => exact h.undisturbed (.reply (hp.record rfl) rfl)
  | batchPaused =>
    have htested : Undisturbed p (p.record (.tested n p.intake.free)) := hp.record rfl
    exact h.undisturbed (htested.quiet rfl)
  | firstStop => exact h.undisturbed hp.queueFetchStop
  | nextStop =>
    have hpush : Undisturbed p
        ({ p with intake := p.intake.push (.call n) .stop }.record (.stopQueued .fetch)) :=
      hp.noting rfl rfl
    exact h.undisturbed hpush.queueFetchStop
  | stopStalled => exact h.undisturbed (hp.noting rfl rfl)
  | stalledOut => exact (h.fail hs).undisturbed (.reply (.refl _) rfl)
  | checked => exact afterCheckPoll (h.poll hs _)
  | checkInjected hi => exact afterCheckPoll (h.injected hs (inject?_injected hi))

theorem fetcher {i : Nat} {w : Fetcher} (h : Watched p) (hs : Staffed p)
    (hf : FetcherMove p i w q) : Watched q := by
  have hp : Undisturbed p p := .refl p
  cases hf with
  | abort | notCreated => exact h.undisturbed hp.endFetcher
  | create | acquire => exact h.undisturbed hp.setFetcher
  | created => exact h.undisturbed (.queueFetcher (hp.record rfl))
  | @receiveStop d ms =>
    have hr : Undisturbed p
        ({ p with intake := { p.intake with messages := ms } }.record (.received i .stop)) :=
      hp.noting rfl rfl
    exact h.undisturbed (.endFetcher (hr.quiet rfl))
  | @receiveItem d item ms =>
    have hr : Undisturbed p
        ({ p with intake := { p.intake with messages := ms } }.record
          (.received i (.data item))) :=
      hp.noting rfl rfl
    exact h.undisturbed (.record (.setFetcher (hr.quiet rfl)) rfl)
  | idle => exact tryPoll (h.undisturbed (hp.quiet rfl)) { hs with }
  | @handOver item since r payload =>
    have hended : Undisturbed p (p.record (.processEnded i item r)) := hp.record rfl
    exact h.undisturbed (.setFetcher (.noting hended rfl rfl))
  | settle =>
    exact tryPoll (h.undisturbed ⟨rfl, rfl, .inl, rfl, rfl, rfl, .trans (.one rfl) (.one rfl)⟩)
      { hs with }
  | lose => exact h.undisturbed (.endFetcher (hp.record rfl))
  | handed =>
    exact tryPoll (h.undisturbed ⟨rfl, rfl, .inl, rfl, rfl, rfl, .trans (.one rfl) (.one rfl)⟩)
      { hs with }
  | stalled => exact h.undisturbed (.endFetcher (hp.noting rfl rfl))
  | injected _ hi => exact afterFetcherPoll (h.injected hs (inject?_injected hi))

theorem move (h : Watched p) (hs : Staffed p) (hm : Move p q) : Watched q := by
  have hp : Undisturbed p p := .refl p
  cases hm with
  | invoke hn hi => exact h.undisturbed (.invocation (hp.record rfl) hi)
  | cancel => exact h.undisturbed (hp.noting rfl rfl)
  | close => exact h.close hs
  | drop => exact h.drop hs
  | tick => exact h.undisturbed (hp.quiet rfl)
  | call hm hc => exact h.call hs hm hc
  | fetcher hw hf => exact h.fetcher hs hf
  | emitter hw he => exact h.undisturbed (.emitter he)

end Watched

variable {settings : Settings} {origin : Instant} {p q : Pipeline}

theorem Reaches.watched (h : p.Reaches q) (hb : build settings origin = .built p) : Watched q := by
  refine h.invariant ?_ fun r s hr ih hm => ih.move (hr.staffed hb) hm
  obtain ⟨-, -, rfl⟩ := build_eq_built hb
  constructor <;> simp [History.opened, History.shut, History.escaped, flags]

/-- When the pipeline is closed or a failure is latched, and no launch is going on, every worker
launched has been asked to abort, unless something closed the pipeline before the launch was over
and neither a failure has been latched nor the pipeline been given up since. Then none has been
asked, and none will be by closing the pipeline again. -/
theorem Reaches.asked_to_abort (h : p.Reaches q) (hb : build settings origin = .built p)
    (ht : q.closed = true ∨ q.tracker.failure ≠ none) (hl : ∀ n c, (n, .launching c) ∉ q.calls) :
    (q.history.escaped = false → ∀ t, q.isLaunched t → q.isAsked t) ∧
      (q.history.escaped = true →
        q.phase = .closed ∧ (∀ t, ¬ q.isAsked t) ∧ (∀ t, ¬ q.close.isAsked t)) := by
  have hw := h.watched hb
  have hc : q.closed = true := ht.elim id (h.tracked hb).latched
  constructor
  · intro he t ht
    cases hs : q.started with
    | true => exact isAsked_of_flags (hw.asked hs hc he) ht
    | false =>
      have hnone := (h.staffed hb).idle hs hl
      cases t <;> simp_all [isLaunched]
  · intro he
    have hs : q.started = true := by
      by_contra hs
      rw [(hw.before (by simpa using hs)).2] at he
      cases he
    have hflags := hw.unasked (.inr he)
    refine ⟨by simp [phase, hs, hc], fun t => not_isAsked_of_flags hflags, fun t => ?_⟩
    refine not_isAsked_of_flags (p := q.close) ?_
    rw [Pipeline.close, if_pos hc]
    exact hflags

/-- The pipeline is closed, then its workers are launched, and then it is closed again. -/
def lateLaunch : List Action :=
  .close :: .invoke 0 .start :: List.replicate 4 (.proceed (.call 0)) ++
    [.proceed (.fetcher 0), .clientReturns 0 (.value ()), .close, .tick 5000]

theorem lateLaunch_asked :
    ∃ p q r, build narrow default = .built p ∧ p.run lateLaunch = some q ∧
      q.run [.drop] = some r ∧ q.phase = .closed ∧ (∀ t, ¬ q.isAsked t) ∧
      ∀ t, r.isLaunched t → r.isAsked t := by
  refine ⟨_, _, _, rfl, rfl, rfl, rfl, ?_, ?_⟩
  · exact ((Reaches.asked_to_abort ⟨lateLaunch, rfl⟩ (show build narrow default = _ from rfl)
      (.inl rfl) fun _ _ => List.not_mem_nil).2 rfl).2.1
  · exact (Reaches.asked_to_abort ⟨lateLaunch ++ [.drop], rfl⟩
      (show build narrow default = _ from rfl) (.inl rfl) fun _ _ => List.not_mem_nil).1 rfl

/-- The fetch worker waits for work in the closed pipeline, and nothing has asked it to abort. -/
theorem lateLaunch_running :
    ∃ p q, build narrow default = .built p ∧ p.run lateLaunch = some q ∧ q.closed = true ∧
      q.calls = [] ∧ q.phase = .closed ∧ q.fetchStage? 0 = some .queuing ∧
      q.fetchers.map (·.abortRequested) = [false] :=
  ⟨_, _, rfl, rfl, rfl, rfl, rfl, rfl, rfl⟩

end Pipeline

end DocumentPipeline
