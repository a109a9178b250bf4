import DocumentPipeline.Proofs.Roster

/-! # Steps beside the injection of stop signals

Most steps neither put a message on the outtake queue nor begin or end the injection of the
emit stop signals. While a call injects, it holds the tracker's lock, so the tracker is
not touched by any other party.
-/
namespace DocumentPipeline

/-- Whether the event has to do with the outtake queue, the injection of stop signals, or the
verdict of a check. -/
@[simp] def Event.isHandover : Event → Bool
  | stopQueued .emit | payloadQueued _ _ | handoffBegan _ .emitStop | handoffStalled _ .emitStop
  | replied _ (.active (.ok _)) => true
  | _ => false

/-- Whether a call at this stage injects stop signals. -/
@[simp] def CallStage.isInjecting : CallStage → Bool
  | offerInjecting _ _ _ | checkInjecting _ => true
  | _ => false

theorem Event.outQueued_of_not_isHandover {e : Event} (h : e.isHandover = false) :
    e.outQueued = [] := by
  cases e with
  | stopQueued r => cases r <;> first | rfl | cases h
  | _ => first | rfl | cases h

theorem Event.placement_of_not_isHandover {e : Event} (h : e.isHandover = false) :
    e.placement = [] := by
  cases e <;> first | rfl | cases h

theorem CallStage.holdsTracker_of_isInjecting {s : CallStage} (h : s.isInjecting = true) :
    s.holdsTracker = true := by
  cases s <;> simp_all

namespace Pipeline

/-- No call injects stop signals. -/
def Uninjected (p : Pipeline) : Prop := ∀ n s, (n, s) ∈ p.calls → s.isInjecting = false

/-- What the injection rests on. -/
def footing (p : Pipeline) : Settings × Tracker × List Fetcher × List (Nat × CallStage) × History :=
  (p.settings, p.tracker, p.fetchers, p.calls, p.history)

/-- A step beside the injection: it goes on as before if it has begun, and not otherwise. -/
structure Apart (p q : Pipeline) : Prop where
  settings : q.settings = p.settings
  sent : q.tracker.emitStopSent = p.tracker.emitStopSent
  failure : Uninjected p ∨ q.tracker.failure = p.tracker.failure
  fetchers : ∀ i j, q.fetchStage? i = some (.injecting j) → p.fetchStage? i = some (.injecting j)
  calls : SameCalls CallStage.isInjecting p q
  history : History.Adds (fun e => e.isHandover = false) p.history q.history

namespace Apart

variable {p q r : Pipeline} {t : Task} {n : Nat}

/-- The tracker, the fetch workers and the calls stay as they are. -/
theorem silent (hs : q.settings = p.settings) (ht : q.tracker = p.tracker)
    (hf : q.fetchers = p.fetchers) (hc : q.calls = p.calls)
    (hh : History.Adds (fun e => e.isHandover = false) p.history q.history) :
    Apart p q where
  settings := hs
  sent := by rw [ht]
  failure := .inr (by rw [ht])
  fetchers i j h := by simpa [fetchStage?, hf] using h
  calls n s _ := by rw [hc]
  history := hh

theorem refl (p : Pipeline) : Apart p p := silent rfl rfl rfl rfl (.refl _)

theorem uninjected_iff (h : Apart p q) : Uninjected q ↔ Uninjected p := h.calls.none_iff

theorem trans (hpq : Apart p q) (hqr : Apart q r) : Apart p r where
  settings := hqr.settings.trans hpq.settings
  sent := hqr.sent.trans hpq.sent
  failure := by
    rcases hpq.failure with hp | hp
    · exact .inl hp
    · rcases hqr.failure with hq | hq
      · exact .inl (hpq.uninjected_iff.mp hq)
      · exact .inr (hq.trans hp)
  fetchers i j h := hpq.fetchers i j (hqr.fetchers i j h)
  calls n s hs := (hqr.calls n s hs).trans (hpq.calls n s hs)
  history := hpq.history.trans hqr.history

theorem suffix (h : Apart p q) : p.history <:+ q.history := h.history.suffix

theorem outQueued (h : Apart p q) :
    q.history.log Event.outQueued = p.history.log Event.outQueued :=
  h.history.log fun _ => Event.outQueued_of_not_isHandover

theorem placements (h : Apart p q) :
    q.history.log Event.placement = p.history.log Event.placement :=
  h.history.log fun _ => Event.placement_of_not_isHandover

/-- Nothing happens beside the locks and queues, and nothing is recorded. -/
theorem quiet (h : Apart p q) (hr : r.footing = q.footing) : Apart p r := by
  simp only [footing, Prod.mk.injEq] at hr
  obtain ⟨hs, ht, hf, hc, hh⟩ := hr
  exact h.trans (silent hs ht hf hc (hh ▸ .refl _))

theorem record {e : Event} (h : Apart p q) (he : e.isHandover = false) :
    Apart p (q.record e) :=
  h.trans (silent rfl rfl rfl rfl (.one he))

/-- A call that does not inject ends. -/
theorem leave {x : Entry} (h : Apart p q) (hn : ∀ s, (n, s) ∈ q.calls → s.isInjecting = false)
    (hc : r.calls = q.calls.filter (·.1 ≠ n)) (hh : r.history = x :: q.history)
    (hx : x.event.isHandover = false) (hs : r.settings = q.settings) (ht : r.tracker = q.tracker)
    (hf : r.fetchers = q.fetchers) : Apart p r := by
  refine h.trans ⟨hs, by rw [ht], .inr (by rw [ht]), fun i j hi => ?_, .leave hn hc, ?_⟩
  · simpa [fetchStage?, hf] using hi
  · rw [hh]
    exact .one hx

theorem reply {a : Reply} (h : Apart p q) (hn : ∀ s, (n, s) ∈ q.calls → s.isInjecting = false)
    (ha : (Event.replied n a).isHandover = false) : Apart p (q.reply n a) :=
  h.leave hn rfl rfl ha rfl rfl rfl

/-- A call that does not inject moves on to a stage where it does not inject either. -/
theorem setCall {u : CallStage} (h : Apart p q)
    (hn : ∀ s, (n, s) ∈ q.calls → s.isInjecting = false) (hu : u.isInjecting = false) :
    Apart p (q.setCall n u) :=
  h.trans ⟨rfl, rfl, .inr rfl, fun _ _ hi => hi, .setCall hn hu, .refl _⟩

theorem addCall {u : CallStage} (h : Apart p q) (hu : u.isInjecting = false) :
    Apart p (q.addCall n u) :=
  h.trans ⟨rfl, rfl, .inr rfl, fun _ _ hi => hi, .addCall hu, .refl _⟩

theorem setFetcher {i : Nat} {s : FetchStage} (h : Apart p q) (hs : ∀ j, s ≠ .injecting j) :
    Apart p (q.setFetcher i s) := by
  refine h.trans ⟨rfl, rfl, .inr rfl, fun k j hk => ?_, fun _ _ _ => .rfl, .refl _⟩
  simp only [fetchStage?, Pipeline.setFetcher, List.getElem?_modify] at hk ⊢
  by_cases hik : i = k
  · subst hik
    cases hw : q.fetchers[i]? with
    | none => simp [hw] at hk
    | some w =>
      simp only [hw, if_true, Option.map_eq_map, Option.map_some, Option.some.injEq] at hk
      exact absurd hk (hs j)
  · simpa [hik] using hk

theorem launch {role : Role} (h : Apart p q) : Apart p (q.launch t role) := by
  refine h.trans ?_
  cases role with
  | emit => exact ⟨rfl, rfl, .inr rfl, fun _ _ hi => hi, fun _ _ _ => .rfl, .one rfl⟩
  | fetch =>
    refine ⟨rfl, rfl, .inr rfl, fun i j hi => ?_, fun _ _ _ => .rfl, .one rfl⟩
    simp only [fetchStage?, Pipeline.launch, Pipeline.record, List.getElem?_append] at hi ⊢
    split at hi
    · exact hi
    · next hlen =>
      cases hk : i - q.fetchers.length with
      | zero => simp [hk] at hi
      | succ k => simp [hk] at hi

theorem queueFetcher {i : Nat} (h : Apart p q) : Apart p (q.queueFetcher i) :=
  quiet (q := q.setFetcher i .queuing) (h.setFetcher (by simp)) rfl

theorem requestTracker (h : Apart p q) : Apart p (q.requestTracker t) := h.quiet rfl

theorem releaseTracker (h : Apart p q) : Apart p (q.releaseTracker t) := h.quiet rfl

theorem requestProducer (h : Apart p q) : Apart p (q.requestProducer t) := h.quiet rfl

theorem endWorker {e : Ending} (h : Apart p q) : Apart p (q.endWorker t e) :=
  h.trans ⟨rfl, rfl, .inr rfl, fun _ _ hi => hi, fun _ _ _ => .rfl, .one rfl⟩

theorem endFetcher {i : Nat} {w : Fetcher} {e : Ending} (h : Apart p q) :
    Apart p (q.endFetcher i w e) := by
  unfold Pipeline.endFetcher
  refine endWorker (setFetcher ?_ (by simp))
  split
  · exact h.record rfl
  · exact h

theorem endEmitter {j : Nat} {e : Ending} (h : Apart p q) : Apart p (q.endEmitter j e) :=
  endWorker (q := q.setEmitter j .exited) (h.quiet rfl)

theorem abortAll (h : Apart p q) : Apart p q.abortAll := by
  refine h.trans ⟨rfl, rfl, .inr rfl, fun i j hi => ?_, fun _ _ _ => .rfl, .refl _⟩
  rwa [(Polled.abortAll q).fetchStage] at hi

theorem fail {f : Failure} (h : Apart p q) (hn : Uninjected q) : Apart p (q.fail f) :=
  h.abortAll.trans
    ⟨rfl, rfl, .inl hn, fun _ _ hi => hi, fun _ _ _ => .rfl, .one rfl⟩

theorem countExit {exits : List (Task × Ending)} {e : Ending} (p : Pipeline) :
    Apart p ({ p with tracker := { p.tracker with exits } }.countExit t e) := by
  refine ⟨rfl, ?_, .inr ?_, fun _ _ hi => hi, fun _ _ _ => .rfl, .one rfl⟩
  · simp only [Pipeline.countExit, Pipeline.record]
    split <;> rfl
  · simp only [Pipeline.countExit, Pipeline.record]
    split <;> rfl

theorem collectFrom (exits : List (Task × Ending)) (hn : Uninjected p) :
    Apart p (p.collectFrom exits).1 := by
  induction exits generalizing p with
  | nil => exact refl p
  | cons x rest ih =>
    obtain ⟨t, e⟩ := x
    have hc : Apart p ({ p with tracker := { p.tracker with exits := rest } }.countExit t e) :=
      countExit p
    rw [Pipeline.collectFrom]
    split
    · exact hc.trans (ih (hc.uninjected_iff.mpr hn))
    · exact hc.fail (hc.uninjected_iff.mpr hn)

theorem collect {f : Option Failure} (hn : Uninjected p) (hc : p.collect = (q, f)) :
    Apart p q := by
  have := collectFrom p.tracker.exits hn
  rwa [show p.collectFrom p.tracker.exits = (q, f) from hc] at this

/-- A poll that does not begin an injection. -/
theorem poll {v : Verdict} (hn : Uninjected p) (hp : 0 < p.settings.numEmitters.toNat)
    (hr : PollResult p t (q, v)) (hv : ∀ i, v ≠ .injecting i) : Apart p q := by
  generalize hx : (q, v) = x at hr
  cases hr with
  | notStarted | latched => cases hx; exact refl p
  | failed _ _ hc => cases hx; exact collect hn hc
  | injecting => cases hx; exact absurd rfl (hv _)
  | @noEmitters r _ _ hc hz =>
    have hs := (collect hn hc).settings
    rw [hs] at hz
    omega
  | active _ _ hc => cases hx; exact collect hn hc

end Apart

end Pipeline

end DocumentPipeline
