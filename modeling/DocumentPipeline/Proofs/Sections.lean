import DocumentPipeline.Proofs.Frames
import Mathlib.Data.List.Nodup

/-! # Critical sections of the calls

Between two of its steps a call may keep a lock: the producer lock while it waits for
room, the tracker's lock while it launches workers or injects stop signals. No two calls
have the same number, so each lock keeps all calls but one out of its section.
-/
namespace DocumentPipeline

namespace CallStage

/-- Whether a call at this stage keeps the producer lock it got. -/
@[simp] def holdsProducer : CallStage → Bool
  | offerPolling _ _ | offerInjecting _ _ _ | sending _ _ | pausing _ _ _ | stopping _ _
  | stallingOut => true
  | _ => false

/-- Whether a call at this stage keeps the tracker's lock it got. -/
@[simp] def holdsTracker : CallStage → Bool
  | launching _ | offerInjecting _ _ _ | checkInjecting _ => true
  | _ => false

/-- Whether a call at this stage announces that no more work is coming. -/
@[simp] def announces : CallStage → Bool
  | finishing | stopping _ _ | stallingOut => true
  | _ => false

/-- Whether a call stands at this stage on behalf of a request. -/
@[simp] def serves : CallStage → Request → Prop
  | starting, r | launching _, r => r = .start
  | offering item _, r | offerPolling item _, r | offerInjecting item _ _, r
  | sending item _, r => ∃ wait, r = .offer item wait
  | batching items _, r | pausing items _ _, r => ∃ wait, r = .offerBatch items wait
  | finishing, r | stopping _ _, r | stallingOut, r => r = .finish
  | checking, r | checkInjecting _, r => r = .checkActive
  | reading, r => r = .status

end CallStage

namespace Pipeline

theorem mem_setCall {p : Pipeline} {n m : Nat} {s u : CallStage} :
    (m, u) ∈ (p.setCall n s).calls ↔
      m = n ∧ u = s ∧ (∃ v, (n, v) ∈ p.calls) ∨ m ≠ n ∧ (m, u) ∈ p.calls := by
  simp only [setCall, List.mem_map, Prod.exists]
  constructor
  · rintro ⟨k, v, hm, hv⟩
    split at hv
    · next hk => subst hk; cases hv; exact .inl ⟨rfl, rfl, v, hm⟩
    · next hk => cases hv; exact .inr ⟨hk, hm⟩
  · rintro (⟨rfl, rfl, v, hm⟩ | ⟨hne, hm⟩)
    · exact ⟨m, v, hm, by simp⟩
    · exact ⟨m, u, hm, by simp [hne]⟩

theorem mem_addCall {p : Pipeline} {n m : Nat} {s u : CallStage} :
    (m, u) ∈ (p.addCall n s).calls ↔ (m, u) ∈ p.calls ∨ m = n ∧ u = s := by
  simp [addCall]

theorem mem_reply {p : Pipeline} {n m : Nat} {a : Reply} {u : CallStage} :
    (m, u) ∈ (p.reply n a).calls ↔ m ≠ n ∧ (m, u) ∈ p.calls := by
  simp [reply, release, record, and_comm]

theorem not_mem_reply {p : Pipeline} {n : Nat} {a : Reply} {u : CallStage} :
    (n, u) ∉ (p.reply n a).calls :=
  fun h => (mem_reply.mp h).1 rfl

theorem stage_of_setCall {p : Pipeline} {n : Nat} {s u : CallStage}
    (h : (n, u) ∈ (p.setCall n s).calls) : u = s := by
  rcases mem_setCall.mp h with ⟨-, hu, -⟩ | ⟨hne, -⟩
  · exact hu
  · exact absurd rfl hne

/-- The calls that stand at a stage of a kind are the same. -/
def SameCalls (kind : CallStage → Bool) (p q : Pipeline) : Prop :=
  ∀ n s, kind s = true → ((n, s) ∈ q.calls ↔ (n, s) ∈ p.calls)

namespace SameCalls

variable {kind : CallStage → Bool} {p q : Pipeline} {n : Nat}

theorem none_iff (h : SameCalls kind p q) :
    (∀ n s, (n, s) ∈ q.calls → kind s = false) ↔ ∀ n s, (n, s) ∈ p.calls → kind s = false := by
  constructor
  · intro hq n s hm
    cases hs : kind s with
    | false => rfl
    | true => exact hs ▸ hq n s ((h n s hs).mpr hm)
  · intro hp n s hm
    cases hs : kind s with
    | false => rfl
    | true => exact hs ▸ hp n s ((h n s hs).mp hm)

/-- A call at a stage of another kind ends. -/
theorem leave (hn : ∀ s, (n, s) ∈ p.calls → kind s = false)
    (hc : q.calls = p.calls.filter (·.1 ≠ n)) : SameCalls kind p q := by
  intro m s hs
  rw [hc, List.mem_filter]
  constructor
  · exact And.left
  · intro hm
    refine ⟨hm, ?_⟩
    by_cases he : m = n
    · have := hn s (he ▸ hm)
      rw [hs] at this
      cases this
    · simpa using he

/-- A call moves on among the stages of another kind. -/
theorem setCall {u : CallStage} (hn : ∀ s, (n, s) ∈ p.calls → kind s = false)
    (hu : kind u = false) : SameCalls kind p (p.setCall n u) := by
  intro m s hs
  rw [mem_setCall]
  constructor
  · rintro (⟨-, rfl, -⟩ | ⟨-, hm⟩)
    · rw [hu] at hs; cases hs
    · exact hm
  · intro hm
    refine .inr ⟨fun he => ?_, hm⟩
    have := hn s (he ▸ hm)
    rw [hs] at this
    cases this

theorem addCall {u : CallStage} (hu : kind u = false) : SameCalls kind p (p.addCall n u) := by
  intro m s hs
  rw [mem_addCall]
  constructor
  · rintro (hm | ⟨-, rfl⟩)
    · exact hm
    · rw [hu] at hs; cases hs
  · exact .inl

end SameCalls

/-- Each pending call has a number of its own, holds the locks its stage requires and
serves the request made under its number. -/
structure Sections (p : Pipeline) : Prop where
  keys : (p.calls.map Prod.fst).Nodup
  producer : ∀ n s, (n, s) ∈ p.calls → s.holdsProducer = true →
    p.producerLock.heldBy (.call n) = true
  tracker : ∀ n s, (n, s) ∈ p.calls → s.holdsTracker = true →
    p.trackerLock.heldBy (.call n) = true
  request : ∀ n s, (n, s) ∈ p.calls → ∃ r, History.requestOf n p.history = some r ∧ s.serves r
  announced : ∀ n s, (n, s) ∈ p.calls → s.announces = true → p.shuttingDown = true

namespace Sections

variable {p q : Pipeline} {n m : Nat} {s u : CallStage}

theorem unique (h : Sections p) (hs : (n, s) ∈ p.calls) (hu : (n, u) ∈ p.calls) : s = u := by
  have := List.inj_on_of_nodup_map h.keys hs hu rfl
  simpa using this

theorem callStage?_eq (h : Sections p) (hm : (n, s) ∈ p.calls) : p.callStage? n = some s := by
  obtain ⟨before, after, hp⟩ := List.append_of_mem hm
  have hkeys := h.keys
  rw [hp, List.map_append, List.map_cons] at hkeys
  have hnot : n ∉ before.map Prod.fst := fun hn =>
    (List.nodup_append.mp hkeys).2.2 n hn n List.mem_cons_self rfl
  refine List.lookup_eq_some_iff.mpr ⟨before, after, hp, fun x hx => ?_⟩
  simpa using fun heq : n = x.1 => hnot (heq ▸ List.mem_map_of_mem hx)

theorem producer_unique (h : Sections p) (hs : (n, s) ∈ p.calls) (hu : (m, u) ∈ p.calls)
    (hn : p.producerLock.heldBy (.call n) = true) (hp : u.holdsProducer = true) :
    m = n ∧ u = s := by
  have heq := Lock.eq_of_heldBy (h.producer m u hu hp) hn
  obtain rfl : m = n := by simpa using heq
  exact ⟨rfl, h.unique hu hs⟩

theorem tracker_unique (h : Sections p) (hs : (n, s) ∈ p.calls) (hu : (m, u) ∈ p.calls)
    (hn : p.trackerLock.heldBy (.call n) = true) (hp : u.holdsTracker = true) :
    m = n ∧ u = s := by
  have heq := Lock.eq_of_heldBy (h.tracker m u hu hp) hn
  obtain rfl : m = n := by simpa using heq
  exact ⟨rfl, h.unique hu hs⟩

/-- The calls, their locks and their requests stay as they are. -/
theorem of_same (h : Sections p) (hc : q.calls = p.calls)
    (hp : q.producerLock = p.producerLock) (ht : q.trackerLock = p.trackerLock)
    (hs : p.shuttingDown = true → q.shuttingDown = true)
    (hr : ∀ n, History.requestOf n q.history = History.requestOf n p.history) : Sections q where
  keys := by rw [hc]; exact h.keys
  producer n s hm := by rw [hp]; rw [hc] at hm; exact h.producer n s hm
  tracker n s hm := by rw [ht]; rw [hc] at hm; exact h.tracker n s hm
  request n s hm := by rw [hr]; rw [hc] at hm; exact h.request n s hm
  announced n s hm ha := by rw [hc] at hm; exact hs (h.announced n s hm ha)

theorem of_kept (h : Sections p) (hk : CallsKept p q) : Sections q where
  keys := by rw [hk.calls]; exact h.keys
  producer n s hm hs := by rw [hk.calls] at hm; exact hk.producer n (h.producer n s hm hs)
  tracker n s hm hs := by rw [hk.calls] at hm; exact hk.tracker n (h.tracker n s hm hs)
  request n s hm := by rw [hk.requestOf]; rw [hk.calls] at hm; exact h.request n s hm
  announced n s hm ha := by
    rw [hk.calls] at hm; exact hk.shuttingDown (h.announced n s hm ha)

/-- A call ends and gives up its locks. -/
theorem leave (h : Sections p) (hc : q.calls = p.calls.filter (·.1 ≠ n))
    (hp : q.producerLock = p.producerLock.release (.call n))
    (ht : q.trackerLock = p.trackerLock.release (.call n))
    (hs : q.shuttingDown = p.shuttingDown)
    (hr : ∀ n, History.requestOf n q.history = History.requestOf n p.history) : Sections q := by
  have hmem : ∀ m u, (m, u) ∈ q.calls → (m, u) ∈ p.calls ∧ Task.call n ≠ Task.call m := by
    intro m u hm
    rw [hc, List.mem_filter] at hm
    exact ⟨hm.1, by grind⟩
  constructor
  · rw [hc]
    exact h.keys.sublist (List.filter_sublist.map _)
  · intro m u hm hu
    rw [hp]
    exact Lock.heldBy_release (h.producer m u (hmem m u hm).1 hu) (hmem m u hm).2
  · intro m u hm hu
    rw [ht]
    exact Lock.heldBy_release (h.tracker m u (hmem m u hm).1 hu) (hmem m u hm).2
  · intro m u hm
    rw [hr]
    exact h.request m u (hmem m u hm).1
  · intro m u hm hu
    rw [hs]
    exact h.announced m u (hmem m u hm).1 hu

theorem reply {a : Reply} (h : Sections p) : Sections (p.reply n a) :=
  h.leave rfl rfl rfl rfl fun _ => rfl

/-- A call moves on to a stage whose locks it holds. -/
theorem setCall (h : Sections p) (hm : (n, s) ∈ p.calls)
    (hp : u.holdsProducer = true → p.producerLock.heldBy (.call n) = true)
    (ht : u.holdsTracker = true → p.trackerLock.heldBy (.call n) = true)
    (hr : ∀ r, s.serves r → u.serves r) (ha : u.announces = true → s.announces = true) :
    Sections (p.setCall n u) where
  keys := by
    have hkeys : (p.setCall n u).calls.map Prod.fst = p.calls.map Prod.fst := by
      simp only [Pipeline.setCall, List.map_map]
      refine List.map_congr_left fun c _ => ?_
      simp only [Function.comp_apply]
      split
      · next hc => exact hc.symm
      · rfl
    rw [hkeys]
    exact h.keys
  producer m v hv := by
    rcases mem_setCall.mp hv with ⟨rfl, rfl, -⟩ | ⟨-, hv⟩
    · exact hp
    · exact h.producer m v hv
  tracker m v hv := by
    rcases mem_setCall.mp hv with ⟨rfl, rfl, -⟩ | ⟨-, hv⟩
    · exact ht
    · exact h.tracker m v hv
  request m v hv := by
    rcases mem_setCall.mp hv with ⟨rfl, rfl, -⟩ | ⟨-, hv⟩
    · obtain ⟨r, hn, hs⟩ := h.request m s hm
      exact ⟨r, hn, hr r hs⟩
    · exact h.request m v hv
  announced m v hv := by
    rcases mem_setCall.mp hv with ⟨rfl, rfl, -⟩ | ⟨-, hv⟩
    · exact fun hv => h.announced m s hm (ha hv)
    · exact h.announced m v hv

/-- A call under a new number waits for its first lock. -/
theorem addCall {r : Request} (h : Sections p) (hn : ∀ s, (n, s) ∉ p.calls)
    (hr : History.requestOf n p.history = some r) (hs : s.serves r)
    (ha : s.announces = true → p.shuttingDown = true)
    (hp : s.holdsProducer = false) (ht : s.holdsTracker = false) :
    Sections (p.addCall n s) where
  keys := by
    have hfresh : n ∉ p.calls.map Prod.fst := by
      intro hm
      obtain ⟨⟨k, v⟩, hv, rfl⟩ := List.mem_map.mp hm
      exact hn v hv
    simpa [Pipeline.addCall, List.nodup_append] using ⟨h.keys, fun a x hx he => hfresh (by
      subst he; exact List.mem_map_of_mem hx)⟩
  producer m v hv hu := by
    rcases mem_addCall.mp hv with hv | ⟨rfl, rfl⟩
    · exact h.producer m v hv hu
    · rw [hp] at hu; cases hu
  tracker m v hv hu := by
    rcases mem_addCall.mp hv with hv | ⟨rfl, rfl⟩
    · exact h.tracker m v hv hu
    · rw [ht] at hu; cases hu
  request m v hv := by
    rcases mem_addCall.mp hv with hv | ⟨rfl, rfl⟩
    · exact h.request m v hv
    · exact ⟨r, hr, hs⟩
  announced m v hv hu := by
    rcases mem_addCall.mp hv with hv | ⟨rfl, rfl⟩
    · exact h.announced m v hv hu
    · exact ha hu

theorem requestTracker {t : Task} (h : Sections p) : Sections (p.requestTracker t) :=
  h.of_kept (.requestTracker (.refl p))

theorem requestProducer {t : Task} (h : Sections p) : Sections (p.requestProducer t) :=
  h.of_kept (.requestProducer (.refl p))

theorem invoked {r : Request} (h : Sections p) (hn : ∀ s, (n, s) ∉ p.calls) :
    Sections (p.record (.invoked n r)) where
  keys := h.keys
  producer := h.producer
  tracker := h.tracker
  announced := h.announced
  request m u hm := by
    have hne : n ≠ m := fun he => hn u (he ▸ hm)
    simpa [record, History.requestOf, hne] using h.request m u hm

theorem invocation {r : Request} (h : Sections p) (hn : ∀ s, (n, s) ∉ p.calls)
    (hr : History.requestOf n p.history = some r) (hi : Invocation p n r q) : Sections q := by
  cases hi with
  | start | check | status => exact requestTracker (h.addCall hn hr rfl (by simp) rfl rfl)
  | offer | batch => exact requestProducer (h.addCall hn hr ⟨_, rfl⟩ (by simp) rfl rfl)
  | batchRefused | batchTooLarge | batchEmpty | finishEarly | finishLate => exact h.reply
  | finishAgain => exact reply { h with announced := fun _ _ _ _ => rfl }
  | finish =>
    have hs : Sections { p with shuttingDown := true, stopsClaimed := true } :=
      { h with announced := fun _ _ _ _ => rfl }
    exact requestProducer (hs.addCall hn hr rfl (fun _ => rfl) rfl rfl)

/-- Goes on after the poll of an offer. -/
theorem afterOfferPoll {item : WorkItem} {wait : Wait} {v : Pipeline × Verdict}
    (h : Sections v.1) (hm : (n, s) ∈ v.1.calls)
    (hs : ∀ r, s.serves r → ∃ wait, r = .offer item wait)
    (hp : v.1.producerLock.heldBy (.call n) = true) (ht : v.1.trackerLock.heldBy (.call n) = true) :
    Sections (afterOfferPoll n item wait v) := by
  obtain ⟨q, v⟩ := v
  cases v with
  | failed e => exact h.reply
  | injecting i => exact h.setCall hm (fun _ => hp) (fun _ => ht) hs (by simp)
  | active b =>
    have hsent := h.setCall (u := .sending item (wait.timeout q.now)) hm (fun _ => hp) (by simp) hs
      (by simp)
    -- the call gives the tracker up, which its new stage does not need
    refine { hsent with tracker := ?_ }
    intro m u hu ht
    rcases mem_setCall.mp hu with ⟨rfl, rfl, -⟩ | ⟨hne, hu⟩
    · cases ht
    · exact Lock.heldBy_release (h.tracker m u hu ht) (by simpa using Ne.symm hne)

theorem afterCheckPoll {v : Pipeline × Verdict} (h : Sections v.1) (hm : (n, s) ∈ v.1.calls)
    (hs : ∀ r, s.serves r → r = .checkActive) (ht : v.1.trackerLock.heldBy (.call n) = true) :
    Sections (afterCheckPoll n v) := by
  obtain ⟨q, v⟩ := v
  cases v with
  | failed e => exact h.reply
  | active b => exact h.reply
  | injecting i => exact h.setCall hm (by simp) (fun _ => ht) hs (by simp)

theorem queueFetchStop {r : Nat} (h : Sections p) (hm : (n, s) ∈ p.calls)
    (hp : p.producerLock.heldBy (.call n) = true) (hs : ∀ r, s.serves r → r = .finish)
    (ha : s.announces = true) : Sections (p.queueFetchStop n r) :=
  setCall (h.of_same rfl rfl rfl id fun _ => rfl) hm (fun _ => hp) (by simp) hs fun _ => ha

theorem call (h : Sections p) (hm : (n, s) ∈ p.calls) (hc : CallMove p n s q) : Sections q := by
  cases hc with
  | startedBefore | offerRefused | unsent | batchRefused | noStops | read => exact h.reply
  | launching held => exact h.setCall hm (by simp) (fun _ => held) (fun _ => id) (by simp)
  | launchFetcher | launchEmitter =>
    exact setCall (h.of_same rfl rfl rfl id fun _ => rfl) hm (by simp)
      (fun _ => h.tracker _ _ hm rfl) (fun _ => id) (by simp)
  | opened => exact reply (h.of_same rfl rfl rfl id fun _ => rfl)
  | offerAccepted held =>
    exact requestTracker (h.setCall hm (fun _ => held) (by simp) (fun _ => id) (by simp))
  | offerPolled held =>
    have hk : CallsKept p (p.poll (.call n)).1 := .of_polled (.poll _ _)
    exact afterOfferPoll (h.of_kept hk) (by rw [hk.calls]; exact hm) (fun _ => id)
      (hk.producer n (h.producer _ _ hm rfl)) (hk.tracker n held)
  | offerInjected hi =>
    have hk := CallsKept.injected (inject?_injected hi)
    exact afterOfferPoll (h.of_kept hk) (by rw [hk.calls]; exact hm) (fun _ => id)
      (hk.producer n (h.producer _ _ hm rfl)) (hk.tracker n (h.tracker _ _ hm rfl))
  | sent | batchAdmitted | batchExpired | lastStop =>
    exact reply (h.of_same rfl rfl rfl id fun _ => rfl)
  | batchPaused hl =>
    have hr : Sections (p.record (.tested n p.intake.free)) :=
      h.of_same rfl rfl rfl id fun _ => rfl
    refine hr.setCall hm ?_ (by simp) ?_ (by simp)
    · cases hl with
      | first held => exact fun _ => held
      | again => exact fun _ => h.producer _ _ hm rfl
    · cases hl <;> exact fun _ => id
  | firstStop held => exact h.queueFetchStop hm held (fun _ => id) rfl
  | nextStop =>
    have hpush : Sections
        ({ p with intake := p.intake.push (.call n) .stop }.record (.stopQueued .fetch)) :=
      h.of_same rfl rfl rfl id fun _ => rfl
    exact hpush.queueFetchStop hm (h.producer _ _ hm rfl) (fun _ => id) rfl
  | stopStalled =>
    have hleave : Sections
        ({ p with intake := p.intake.leave (.call n) }.record
          (.handoffStalled (.call n) .fetchStop)) :=
      h.of_same rfl rfl rfl id fun _ => rfl
    exact requestTracker (hleave.setCall hm (fun _ => h.producer _ _ hm rfl) (by simp) (fun _ => id)
      fun _ => rfl)
  | stalledOut => exact reply (h.of_kept (.of_polled (.fail _ _)))
  | checked held =>
    have hk : CallsKept p (p.poll (.call n)).1 := .of_polled (.poll _ _)
    exact afterCheckPoll (h.of_kept hk) (by rw [hk.calls]; exact hm) (fun _ => id)
      (hk.tracker n held)
  | checkInjected hi =>
    have hk := CallsKept.injected (inject?_injected hi)
    exact afterCheckPoll (h.of_kept hk) (by rw [hk.calls]; exact hm) (fun _ => id)
      (hk.tracker n (h.tracker _ _ hm rfl))

theorem move (h : Sections p) (hm : Move p q) : Sections q := by
  cases hm with
  | invoke hn hi => exact (h.invoked hn).invocation hn (by simp [record, History.requestOf]) hi
  | cancel => exact h.leave rfl rfl rfl rfl fun _ => rfl
  | close => exact h.of_kept (.close p)
  | drop => exact h.of_kept (.drop p)
  | tick => exact h.of_same rfl rfl rfl id fun _ => rfl
  | call hm hc => exact h.call hm hc
  | fetcher hw hf => exact h.of_kept hf.callsKept
  | emitter hw he => exact h.of_kept he.callsKept

end Sections

theorem sections_of_build {settings : Settings} {origin : Instant} {p : Pipeline}
    (h : build settings origin = .built p) : Sections p := by
  obtain ⟨-, -, rfl⟩ := build_eq_built h
  constructor <;> simp

theorem Reaches.sections {settings : Settings} {origin : Instant} {p q : Pipeline}
    (h : p.Reaches q) (hb : build settings origin = .built p) : Sections q :=
  h.invariant (sections_of_build hb) fun _ _ _ ih hm => ih.move hm

end Pipeline

end DocumentPipeline
