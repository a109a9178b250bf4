import DocumentPipeline.Proofs.Waiting

/-! # The stages of the workers and the calls

The stages at which the workers of a pool stand, as a list. A step changes the stage of one
worker at most, and only a launch makes the list longer. A call goes from each of its stages to
few others.
-/
namespace DocumentPipeline

/-- Whether a call goes from one stage to the other with a single step. -/
@[simp] def CallStage.leadsTo : CallStage → CallStage → Bool
  | starting, launching _ | launching _, launching _ | offering _ _, offerPolling _ _
  | offerPolling _ _, offerInjecting _ _ _ | offerPolling _ _, sending _ _
  | offerInjecting _ _ _, offerInjecting _ _ _ | offerInjecting _ _ _, sending _ _
  | batching _ _, pausing _ _ _ | pausing _ _ _, pausing _ _ _ | finishing, stopping _ _
  | stopping _ _, stopping _ _ | stopping _ _, stallingOut | checking, checkInjecting _
  | checkInjecting _, checkInjecting _ => true
  | _, _ => false

namespace Pipeline

def fetchStages (p : Pipeline) : List FetchStage := p.fetchers.map (·.stage)

def emitStages (p : Pipeline) : List EmitStage := p.emitters.map (·.stage)

variable {p q : Pipeline} {i j n : Nat} {t : Task} {e : Ending}

theorem getElem?_fetchStages : p.fetchStages[i]? = p.fetchStage? i := by
  simp [fetchStages, fetchStage?]

theorem getElem?_emitStages : p.emitStages[j]? = p.emitStage? j := by
  simp [emitStages, emitStage?]

@[simp] theorem fetchStages_setFetcher {s : FetchStage} :
    (p.setFetcher i s).fetchStages = p.fetchStages.set i s := by
  refine List.ext_getElem? fun k => ?_
  simp only [fetchStages, setFetcher, List.getElem?_map, List.getElem?_modify, List.getElem?_set,
    List.length_map]
  by_cases hk : i = k
  · subst hk
    by_cases hlt : i < p.fetchers.length
    · simp [hlt]
    · simp [hlt]
  · simp [hk]

@[simp] theorem emitStages_setEmitter {s : EmitStage} :
    (p.setEmitter j s).emitStages = p.emitStages.set j s := by
  refine List.ext_getElem? fun k => ?_
  simp only [emitStages, setEmitter, List.getElem?_map, List.getElem?_modify, List.getElem?_set,
    List.length_map]
  by_cases hk : j = k
  · subst hk
    by_cases hlt : j < p.emitters.length
    · simp [hlt]
    · simp [hlt]
  · simp [hk]

theorem Polled.fetchStages (h : Polled p q) : q.fetchStages = p.fetchStages :=
  List.ext_getElem? fun i => by rw [getElem?_fetchStages, getElem?_fetchStages, h.fetchStage]

theorem Polled.emitStages (h : Polled p q) : q.emitStages = p.emitStages :=
  List.ext_getElem? fun j => by rw [getElem?_emitStages, getElem?_emitStages, h.emitStage]

@[simp] theorem fetchStages_endFetcher {w : Fetcher} :
    (p.endFetcher i w e).fetchStages = p.fetchStages.set i .exited := by
  unfold endFetcher
  dsimp only
  split <;> exact fetchStages_setFetcher (s := .exited)

@[simp] theorem emitStages_endFetcher {w : Fetcher} :
    (p.endFetcher i w e).emitStages = p.emitStages := by
  unfold endFetcher
  dsimp only
  split <;> rfl

@[simp] theorem emitStages_endEmitter :
    (p.endEmitter j e).emitStages = p.emitStages.set j .exited :=
  emitStages_setEmitter (s := .exited)

/-- The workers of both pools stand where they stood. -/
def SameStages (p q : Pipeline) : Prop :=
  q.fetchStages = p.fetchStages ∧ q.emitStages = p.emitStages

namespace SameStages

theorem refl (p : Pipeline) : SameStages p p := ⟨rfl, rfl⟩

theorem polled (h : Polled p q) : SameStages p q := ⟨h.fetchStages, h.emitStages⟩

theorem fail {f : Failure} (h : SameStages p q) : SameStages p (q.fail f) :=
  ⟨(Polled.fail q f).fetchStages.trans h.1, (Polled.fail q f).emitStages.trans h.2⟩

theorem abortAll (p : Pipeline) : SameStages p p.abortAll := polled (.abortAll p)

theorem injected {i : Injection} {v : Pipeline × Verdict} (h : Injected p t i v) :
    SameStages p v.1 := by
  cases h with
  | last | next => exact ⟨rfl, rfl⟩
  | stalled _ _ hq =>
    subst hq
    exact fail ⟨rfl, rfl⟩

theorem afterOfferPoll {item : WorkItem} {wait : Wait} {v : Pipeline × Verdict}
    (h : SameStages p v.1) : SameStages p (afterOfferPoll n item wait v) := by
  obtain ⟨q, v⟩ := v
  cases v <;> exact h

theorem afterCheckPoll {v : Pipeline × Verdict} (h : SameStages p v.1) :
    SameStages p (afterCheckPoll n v) := by
  obtain ⟨q, v⟩ := v
  cases v <;> exact h

end SameStages

theorem Invocation.sameStages {r : Request} (h : Invocation p n r q) : SameStages p q := by
  cases h <;> exact ⟨rfl, rfl⟩

/-- A call moves no worker, but it may launch one. -/
theorem CallMove.sameStages {s : CallStage} (h : CallMove p n s q)
    (hs : ∀ c, s ≠ .launching c) : SameStages p q := by
  cases h with
  | launchFetcher | launchEmitter | opened => exact absurd rfl (hs _)
  | offerPolled => exact .afterOfferPoll (.polled (.poll _ _))
  | offerInjected hi => exact .afterOfferPoll (.injected (inject?_injected hi))
  | checked => exact .afterCheckPoll (.polled (.poll _ _))
  | checkInjected hi => exact .afterCheckPoll (.injected (inject?_injected hi))
  | stalledOut => exact SameStages.fail (f := .stalled Cargo.fetchStop.label p.ceiling) (.refl p)
  | _ => exact ⟨rfl, rfl⟩

/-- Whoever launches workers puts them at their first stage. -/
theorem CallMove.launches {c : Nat} (h : CallMove p n (.launching c) q) :
    SameStages p q ∨
      q.fetchStages = p.fetchStages ++ [.launched] ∧ q.emitStages = p.emitStages ∨
      q.fetchStages = p.fetchStages ∧ q.emitStages = p.emitStages ++ [.launched] := by
  cases h with
  | opened => exact .inl ⟨rfl, rfl⟩
  | launchFetcher =>
    exact .inr (.inl ⟨by simp [Pipeline.fetchStages, setCall, launch, record], rfl⟩)
  | launchEmitter =>
    exact .inr (.inr ⟨rfl, by simp [Pipeline.emitStages, setCall, launch, record]⟩)
  | batchAdmitted hl | batchExpired hl | batchPaused hl => cases hl

/-- A call that is still pending after its step has come to the next stage. -/
theorem CallMove.leadsTo {s u : CallStage} (h : CallMove p n s q) (hu : (n, u) ∈ q.calls) :
    s.leadsTo u = true := by
  cases h with
  | startedBefore | opened | offerRefused | sent | unsent | batchRefused | batchAdmitted
  | batchExpired | noStops | lastStop | stalledOut | read => exact absurd hu not_mem_reply
  | launching | launchFetcher | launchEmitter | offerAccepted | firstStop | nextStop
  | stopStalled => exact stage_of_setCall hu ▸ rfl
  | batchPaused hl => cases hl <;> exact stage_of_setCall hu ▸ rfl
  | offerPolled =>
    generalize p.poll (.call n) = v at hu
    obtain ⟨r, v⟩ := v
    cases v with
    | failed => exact absurd hu not_mem_reply
    | active | injecting => exact stage_of_setCall hu ▸ rfl
  | @offerInjected _ _ _ v =>
    obtain ⟨r, v⟩ := v
    cases v with
    | failed => exact absurd hu not_mem_reply
    | active | injecting => exact stage_of_setCall hu ▸ rfl
  | checked =>
    generalize p.poll (.call n) = v at hu
    obtain ⟨r, v⟩ := v
    cases v with
    | failed | active => exact absurd hu not_mem_reply
    | injecting => exact stage_of_setCall hu ▸ rfl
  | @checkInjected _ v =>
    obtain ⟨r, v⟩ := v
    cases v with
    | failed | active => exact absurd hu not_mem_reply
    | injecting => exact stage_of_setCall hu ▸ rfl

/-- Of the workers of both pools, one fetch worker moves. -/
def MovesFetcher (i : Nat) (p q : Pipeline) : Prop :=
  (∃ s, q.fetchStages = p.fetchStages.set i s) ∧ q.emitStages = p.emitStages

namespace MovesFetcher

variable {w : Fetcher}

theorem afterFetcherPoll {v : Pipeline × Verdict} (h : SameStages p v.1) :
    MovesFetcher i p (afterFetcherPoll i w v) := by
  obtain ⟨q, v⟩ := v
  obtain ⟨hf, he⟩ := h
  cases v with
  | failed err => exact ⟨⟨.exited, hf ▸ fetchStages_endFetcher⟩, emitStages_endFetcher.trans he⟩
  | active b => exact ⟨⟨.queuing, hf ▸ fetchStages_setFetcher⟩, he⟩
  | injecting k => exact ⟨⟨.injecting k, hf ▸ fetchStages_setFetcher⟩, he⟩

theorem tryPoll : MovesFetcher i p (p.tryPoll i w) := by
  unfold Pipeline.tryPoll
  dsimp only
  split
  · have hp : SameStages p ((p.requestTracker (.fetcher i)).poll (.fetcher i)).1 :=
      SameStages.polled (p := p.requestTracker _) (.poll _ _)
    exact afterFetcherPoll hp
  · exact ⟨⟨.queuing, fetchStages_setFetcher⟩, rfl⟩

end MovesFetcher

theorem FetcherMove.movesFetcher {w : Fetcher} (h : FetcherMove p i w q) :
    MovesFetcher i p q := by
  cases h with
  | abort | notCreated => exact ⟨⟨_, fetchStages_endFetcher⟩, emitStages_endFetcher⟩
  | receiveStop | lose | stalled => exact ⟨⟨_, fetchStages_endFetcher⟩, emitStages_endFetcher⟩
  | create | acquire | created | receiveItem | handOver => exact ⟨⟨_, fetchStages_setFetcher⟩, rfl⟩
  | idle | settle | handed => exact MovesFetcher.tryPoll
  | injected _ hi => exact .afterFetcherPoll (.injected (inject?_injected hi))

/-- Of the workers of both pools, one emit worker moves. -/
theorem EmitterMove.movesEmitter {w : EmitWorker} (h : EmitterMove p j w q) :
    (∃ s, q.emitStages = p.emitStages.set j s) ∧ q.fetchStages = p.fetchStages := by
  cases h with
  | abort | takeStop | failed => exact ⟨⟨_, emitStages_endEmitter⟩, rfl⟩
  | queue | acquire | takePayload | delivered => exact ⟨⟨_, emitStages_setEmitter⟩, rfl⟩

theorem close_sameStages (p : Pipeline) : SameStages p p.close := by
  unfold Pipeline.close
  split
  · exact ⟨rfl, rfl⟩
  · exact SameStages.abortAll p

theorem drop_sameStages (p : Pipeline) : SameStages p p.drop := SameStages.abortAll p

end Pipeline

end DocumentPipeline
