import DocumentPipeline.Proofs.Sections

/-! # The launch of the workers

Workers are launched one after the other by a single call, which keeps the tracker's lock
until all of them stand ready. So there are never more workers than the settings ask for,
and exactly as many once the pipeline is open.
-/
namespace DocumentPipeline

namespace Pipeline

/-- As many workers stand ready as the launch has come to. -/
structure Staffed (p : Pipeline) : Prop where
  launching : ∀ n c, (n, .launching c) ∈ p.calls → p.started = false ∧
    c ≤ p.settings.totalWorkers ∧ p.fetchers.length = min c p.settings.numClients.toNat ∧
    p.emitters.length = c - p.settings.numClients.toNat
  idle : p.started = false → (∀ n c, (n, .launching c) ∉ p.calls) →
    p.fetchers.length = 0 ∧ p.emitters.length = 0
  full : p.started = true → p.fetchers.length = p.settings.numClients.toNat ∧
    p.emitters.length = p.settings.numEmitters.toNat

theorem Sections.not_launching {p : Pipeline} {n : Nat} {s : CallStage} (h : Sections p)
    (hm : (n, s) ∈ p.calls) (hs : ∀ c, s ≠ .launching c) : ∀ c, (n, .launching c) ∉ p.calls :=
  fun c hc => hs c (h.unique hm hc)

namespace Staffed

variable {p q : Pipeline} {n : Nat} {s u : CallStage}

theorem fetchers_le (h : Staffed p) : p.fetchers.length ≤ p.settings.numClients.toNat := by
  by_cases hs : p.started = true
  · exact Nat.le_of_eq (h.full hs).1
  · have hs : p.started = false := by simpa using hs
    by_cases hl : ∃ n c, (n, .launching c) ∈ p.calls
    · obtain ⟨n, c, hl⟩ := hl
      have := (h.launching n c hl).2.2.1
      omega
    · have := (h.idle hs fun n c hc => hl ⟨n, c, hc⟩).1
      omega

theorem emitters_le (h : Staffed p) : p.emitters.length ≤ p.settings.numEmitters.toNat := by
  by_cases hs : p.started = true
  · exact Nat.le_of_eq (h.full hs).2
  · have hs : p.started = false := by simpa using hs
    by_cases hl : ∃ n c, (n, .launching c) ∈ p.calls
    · obtain ⟨n, c, hl⟩ := hl
      obtain ⟨-, hc, -, he⟩ := h.launching n c hl
      unfold Settings.totalWorkers at hc
      omega
    · have := (h.idle hs fun n c hc => hl ⟨n, c, hc⟩).2
      omega

/-- No worker is launched and no call begins or ends a launch. -/
theorem of_same (h : Staffed p) (hs : q.settings = p.settings) (ho : q.started = p.started)
    (hf : q.fetchers.length = p.fetchers.length) (he : q.emitters.length = p.emitters.length)
    (hl : ∀ n c, (n, .launching c) ∈ q.calls ↔ (n, .launching c) ∈ p.calls) : Staffed q where
  launching n c hc := by
    rw [hs, ho, hf, he]
    exact h.launching n c ((hl n c).mp hc)
  idle hst hn := by
    rw [hf, he]
    exact h.idle (ho ▸ hst) fun n c hc => hn n c ((hl n c).mpr hc)
  full hst := by
    rw [hs, hf, he]
    exact h.full (ho ▸ hst)

theorem of_kept (h : Staffed p) (hk : CallsKept p q) : Staffed q :=
  h.of_same hk.settings hk.started hk.fetchers hk.emitters fun n c => by rw [hk.calls]

theorem reply {a : Reply} (h : Staffed p) (hn : ∀ c, (n, .launching c) ∉ p.calls) :
    Staffed (p.reply n a) := by
  refine h.of_same rfl rfl rfl rfl fun m c => ?_
  rw [mem_reply]
  constructor
  · exact And.right
  · intro hm
    exact ⟨fun he => hn c (he ▸ hm), hm⟩

theorem setCall (h : Staffed p) (hn : ∀ c, (n, .launching c) ∉ p.calls)
    (hu : ∀ c, u ≠ .launching c) : Staffed (p.setCall n u) := by
  refine h.of_same rfl rfl rfl rfl fun m c => ?_
  rw [mem_setCall]
  constructor
  · rintro (⟨-, he, -⟩ | ⟨-, hm⟩)
    · exact absurd he.symm (hu c)
    · exact hm
  · intro hm
    exact .inr ⟨fun he => hn c (he ▸ hm), hm⟩

theorem addCall (h : Staffed p) (hu : ∀ c, u ≠ .launching c) :
    Staffed (p.addCall n u) := by
  refine h.of_same rfl rfl rfl rfl fun m c => ?_
  rw [mem_addCall]
  constructor
  · rintro (hm | ⟨-, he⟩)
    · exact hm
    · exact absurd he.symm (hu c)
  · exact .inl

theorem requestTracker {t : Task} (h : Staffed p) : Staffed (p.requestTracker t) :=
  h.of_kept (.requestTracker (.refl p))

theorem requestProducer {t : Task} (h : Staffed p) : Staffed (p.requestProducer t) :=
  h.of_kept (.requestProducer (.refl p))

theorem invocation {r : Request} (h : Staffed p) (hn : ∀ s, (n, s) ∉ p.calls)
    (hi : Invocation p n r q) : Staffed q := by
  have hno : ∀ c, (n, .launching c) ∉ p.calls := fun c => hn _
  cases hi with
  | start | check | status => exact requestTracker (h.addCall (by simp))
  | offer | batch => exact requestProducer (h.addCall (by simp))
  | batchRefused | batchTooLarge | batchEmpty | finishEarly | finishLate => exact h.reply hno
  | finishAgain =>
    have hs : Staffed { p with shuttingDown := true } := { h with }
    exact hs.reply hno
  | finish =>
    have hs : Staffed { p with shuttingDown := true, stopsClaimed := true } := { h with }
    exact requestProducer (hs.addCall (by simp))

theorem afterOfferPoll {item : WorkItem} {wait : Wait} {v : Pipeline × Verdict}
    (h : Staffed v.1) (hn : ∀ c, (n, .launching c) ∉ v.1.calls) :
    Staffed (afterOfferPoll n item wait v) := by
  obtain ⟨q, v⟩ := v
  cases v with
  | failed e => exact h.reply hn
  | injecting i => exact h.setCall hn (by simp)
  | active b =>
    have hs : Staffed (q.setCall n (.sending item (wait.timeout q.now))) :=
      h.setCall hn (by simp)
    exact { hs with }

theorem afterCheckPoll {v : Pipeline × Verdict} (h : Staffed v.1)
    (hn : ∀ c, (n, .launching c) ∉ v.1.calls) : Staffed (afterCheckPoll n v) := by
  obtain ⟨q, v⟩ := v
  cases v with
  | failed e => exact h.reply hn
  | active b => exact h.reply hn
  | injecting i => exact h.setCall hn (by simp)

/-- A call that holds the tracker has come to the launch of the next worker. -/
theorem of_launching {c : Nat} (hx : Sections p) (hm : (n, s) ∈ p.calls)
    (held : p.trackerLock.heldBy (.call n) = true)
    (hq : q.calls = (p.setCall n (.launching c)).calls) (hs : q.started = false)
    (hc : c ≤ q.settings.totalWorkers)
    (hf : q.fetchers.length = min c q.settings.numClients.toNat)
    (he : q.emitters.length = c - q.settings.numClients.toNat) : Staffed q where
  launching m d hd := by
    rw [hq] at hd
    rcases mem_setCall.mp hd with ⟨-, hd, -⟩ | ⟨hne, hd⟩
    · cases hd
      exact ⟨hs, hc, hf, he⟩
    · exact absurd (hx.tracker_unique hm hd held rfl).1 hne
  idle _ hn := by
    have hmem : (n, .launching c) ∈ (p.setCall n (.launching c)).calls :=
      mem_setCall.mpr (.inl ⟨rfl, rfl, s, hm⟩)
    rw [← hq] at hmem
    exact absurd hmem (hn n c)
  full ho := by rw [hs] at ho; cases ho

theorem call (h : Staffed p) (hx : Sections p) (hm : (n, s) ∈ p.calls) (hc : CallMove p n s q) :
    Staffed q := by
  cases hc with
  | startedBefore | offerRefused | unsent | batchRefused | noStops | read =>
    exact h.reply (hx.not_launching hm (by simp))
  | launching held hs =>
    have hnone : ∀ m c, (m, .launching c) ∉ p.calls := by
      intro m c hu
      cases (hx.tracker_unique hm hu held rfl).2
    obtain ⟨hf, he⟩ := h.idle hs hnone
    exact of_launching hx hm held rfl hs (Nat.zero_le _) (by simpa [Pipeline.setCall] using hf)
      (by simpa [Pipeline.setCall] using he)
  | @launchFetcher c hc =>
    obtain ⟨hs, -, hf, he⟩ := h.launching n c hm
    refine of_launching hx hm (hx.tracker n _ hm rfl) rfl hs ?_ ?_ ?_
    · simp [Pipeline.launch, Pipeline.setCall, record, Settings.totalWorkers]; omega
    · simp [Pipeline.launch, Pipeline.setCall, record, hf]; omega
    · simp [Pipeline.launch, Pipeline.setCall, record, he]; omega
  | @launchEmitter c hc ht =>
    obtain ⟨hs, -, hf, he⟩ := h.launching n c hm
    refine of_launching hx hm (hx.tracker n _ hm rfl) rfl hs ht ?_ ?_
    · simp [Pipeline.launch, Pipeline.setCall, record, hf]; omega
    · simp [Pipeline.launch, Pipeline.setCall, record, he]; omega
  | @opened c ht =>
    obtain ⟨-, hc, hf, he⟩ := h.launching n c hm
    have held := hx.tracker n _ hm rfl
    constructor
    · intro m d hu
      obtain ⟨hne, hu⟩ := mem_reply.mp hu
      exact absurd (hx.tracker_unique hm hu held rfl).1 hne
    · intro ho
      cases ho
    · intro _
      unfold Settings.totalWorkers at hc ht
      exact ⟨by simp only [Pipeline.reply, Pipeline.release, record]; omega,
        by simp only [Pipeline.reply, Pipeline.release, record]; omega⟩
  | offerAccepted => exact requestTracker (h.setCall (hx.not_launching hm (by simp)) (by simp))
  | offerPolled =>
    have hk : CallsKept p (p.poll (.call n)).1 := .of_polled (.poll _ _)
    exact afterOfferPoll (h.of_kept hk) (by rw [hk.calls]; exact hx.not_launching hm (by simp))
  | offerInjected hi =>
    have hk := CallsKept.injected (inject?_injected hi)
    exact afterOfferPoll (h.of_kept hk) (by rw [hk.calls]; exact hx.not_launching hm (by simp))
  | sent | lastStop =>
    exact reply (h.of_same rfl rfl rfl rfl fun _ _ => .rfl) (hx.not_launching hm (by simp))
  | batchAdmitted hl | batchExpired hl =>
    exact reply (h.of_same rfl rfl rfl rfl fun _ _ => .rfl)
      (hx.not_launching hm (by cases hl <;> simp))
  | batchPaused hl =>
    exact setCall (h.of_same rfl rfl rfl rfl fun _ _ => .rfl)
      (hx.not_launching hm (by cases hl <;> simp)) (by simp)
  | firstStop | nextStop =>
    exact setCall (h.of_same rfl rfl rfl rfl fun _ _ => .rfl) (hx.not_launching hm (by simp))
      (by simp)
  | stopStalled =>
    exact requestTracker (setCall (h.of_same rfl rfl rfl rfl fun _ _ => .rfl)
      (hx.not_launching hm (by simp)) (by simp))
  | stalledOut =>
    have hk : CallsKept p (p.fail (.stalled Cargo.fetchStop.label p.ceiling)) :=
      .of_polled (.fail _ _)
    exact reply (h.of_kept hk) (by rw [hk.calls]; exact hx.not_launching hm (by simp))
  | checked =>
    have hk : CallsKept p (p.poll (.call n)).1 := .of_polled (.poll _ _)
    exact afterCheckPoll (h.of_kept hk) (by rw [hk.calls]; exact hx.not_launching hm (by simp))
  | checkInjected hi =>
    have hk := CallsKept.injected (inject?_injected hi)
    exact afterCheckPoll (h.of_kept hk) (by rw [hk.calls]; exact hx.not_launching hm (by simp))

theorem move (h : Staffed p) (hx : Sections p) (hm : Move p q) : Staffed q := by
  cases hm with
  | invoke hn hi => exact invocation (p := p.record _) { h with } hn hi
  | @cancel n stage hm hs =>
    have hno := hx.not_launching hm (by rintro c rfl; cases hs)
    have hr : Staffed (p.reply n .started) := h.reply hno
    exact { hr with }
  | close => exact h.of_kept (.close p)
  | drop => exact h.of_kept (.drop p)
  | tick => exact { h with }
  | call hm hc => exact h.call hx hm hc
  | fetcher hw hf => exact h.of_kept hf.callsKept
  | emitter hw he => exact h.of_kept he.callsKept

end Staffed

theorem staffed_of_build {settings : Settings} {origin : Instant} {p : Pipeline}
    (h : build settings origin = .built p) : Staffed p := by
  obtain ⟨-, -, rfl⟩ := build_eq_built h
  constructor <;> simp

theorem Reaches.staffed {settings : Settings} {origin : Instant} {p q : Pipeline}
    (h : p.Reaches q) (hb : build settings origin = .built p) : Staffed q :=
  h.invariant (staffed_of_build hb) fun _ _ hr ih hm => ih.move (hr.sections hb) hm

end Pipeline

end DocumentPipeline
