import DocumentPipeline.Proofs.Accounting

/-! # The order of one item after the other

Only launched workers leave entries in the history. Where each pool has one worker, the log of
its work is therefore the share of that worker, and the books of the only fetch worker tie the
order of the reports to the order of the admitted items. The queues keep the order on the way
in and on the way out.
-/
namespace DocumentPipeline

/-- The items that enter the intake queue. -/
@[simp] def Event.admission : Event → List WorkItem
  | admitted _ items => items
  | _ => []

namespace Event

variable {e : Event}

theorem worker?_of_processCall {x : Nat × WorkItem} (h : x ∈ e.processCall) :
    e.worker? = some (.fetcher x.1) := by
  cases e with
  | processBegan i item => obtain rfl := List.mem_singleton.mp h; rfl
  | _ => cases h

theorem worker?_of_processResult {x : Nat × WorkItem × Return ClientError Outcome}
    (h : x ∈ e.processResult) : e.worker? = some (.fetcher x.1) := by
  cases e with
  | processEnded i item r => obtain rfl := List.mem_singleton.mp h; rfl
  | _ => cases h

theorem worker?_of_report {x : Nat × WorkItem × Outcome} (h : x ∈ e.report) :
    e.worker? = some (.fetcher x.1) := by
  cases e with
  | reported i item o ms => obtain rfl := List.mem_singleton.mp h; rfl
  | _ => cases h

theorem worker?_of_emitCall {x : Nat × Payload} (h : x ∈ e.emitCall) :
    e.worker? = some (.emitter x.1) := by
  cases e with
  | emitBegan j payload => obtain rfl := List.mem_singleton.mp h; rfl
  | _ => cases h

end Event

namespace History

/-- The items on the intake queue are those of the submissions admitted to it. -/
theorem contents_admission (h : History) :
    (h.log Event.enqueued).filterMap Message.content? = h.log Event.admission := by
  induction h with
  | nil => rfl
  | cons x h ih =>
    rw [log_cons, log_cons, List.filterMap_append, ih]
    congr 1
    cases hx : x.event with
    | admitted n items =>
      simp [List.filterMap_map, Function.comp_def, Message.content?]
    | stopQueued role => cases role <;> rfl
    | _ => rfl

end History

section Share

variable {α : Type} {i : Nat} {l : List (Nat × α)}

/-- A log to which one worker alone contributed is the share of that worker. -/
theorem map_snd_of_alone (h : ∀ x ∈ l, x.1 = i) : l.map Prod.snd = share i l := by
  induction l with
  | nil => rfl
  | cons x l ih =>
    obtain ⟨j, a⟩ := x
    obtain rfl : j = i := h _ List.mem_cons_self
    rw [List.map_cons, ih fun x hx => h x (List.mem_cons_of_mem _ hx)]
    simp [share]

/-- A log to which one worker alone contributed tells nothing but what the worker did. -/
theorem eq_map_of_alone (h : ∀ x ∈ l, x.1 = i) : l = (l.map Prod.snd).map (i, ·) := by
  rw [List.map_map]
  refine (List.map_id l).symm.trans (List.map_congr_left fun x hx => ?_)
  exact Prod.ext (h x hx) rfl

end Share

namespace Pipeline

variable {p q p₀ : Pipeline} {t : Task} {settings : Settings} {origin : Instant}

/-- A worker does nothing with a step, or it is a launched worker that takes the step. -/
theorem Move.idles_or_launched (h : Move p q) (t : Task) :
    Idles t p q ∨ (∃ i, t = .fetcher i ∧ i < p.fetchers.length) ∨
      ∃ j, t = .emitter j ∧ j < p.emitters.length := by
  cases h with
  | @invoke n r q hn hi =>
    have hinvoked : Idles t p (p.record (.invoked n r)) := .record (.refl p) (by simp)
    exact .inl (hinvoked.trans hi.idles)
  | cancel => exact .inl (.single rfl rfl (by simp))
  | close => exact .inl (close_idles p)
  | drop => exact .inl (drop_idles p)
  | tick => exact .inl (.silent rfl rfl)
  | call hm hc => exact .inl hc.idles
  | @fetcher i w q hw hf =>
    by_cases ht : t = .fetcher i
    · exact .inr (.inl ⟨i, ht, (List.getElem?_eq_some_iff.mp hw).1⟩)
    · exact .inl (hf.idles ht)
  | @emitter j w q hw he =>
    by_cases ht : t = .emitter j
    · exact .inr (.inr ⟨j, ht, (List.getElem?_eq_some_iff.mp hw).1⟩)
    · exact .inl (he.idles ht)

/-- Whoever has left an entry of its work is one of the workers. -/
theorem Reaches.worker_of_mem (h : p₀.Reaches q) (hb : build settings origin = .built p₀) :
    ∀ x ∈ q.history, ∀ t, x.event.worker? = some t → t ∈ q.allWorkers := by
  refine h.invariant
    (I := fun r => ∀ x ∈ r.history, ∀ t, x.event.worker? = some t → t ∈ r.allWorkers) ?_ ?_
  · obtain ⟨-, -, rfl⟩ := build_eq_built hb
    simp
  · intro r s hr ih hm x hx t ht
    have hworkers : s.allWorkers = r.allWorkers := by
      rw [allWorkers, hm.settings, ← allWorkers]
    rw [hworkers]
    rcases hm.idles_or_launched t with hidle | ⟨i, rfl, hi⟩ | ⟨j, rfl, hj⟩
    · rcases hidle.history.mem hx with hnew | hpast
      · exact absurd ht hnew
      · exact ih x hpast t ht
    · have hlt : i < r.settings.numClients.toNat :=
        Nat.lt_of_lt_of_le hi (hr.staffed hb).fetchers_le
      exact List.mem_append_left _ (List.mem_map_of_mem (List.mem_range.mpr hlt))
    · have hlt : j < r.settings.numEmitters.toNat :=
        Nat.lt_of_lt_of_le hj (hr.staffed hb).emitters_le
      exact List.mem_append_right _ (List.mem_map_of_mem (List.mem_range.mpr hlt))

/-- The log of what the workers of one pool did is that of its only worker. -/
theorem Reaches.alone {α : Type} {f : Event → List (Nat × α)} {worker : Nat → Task}
    (h : p₀.Reaches q) (hb : build settings origin = .built p₀)
    (hf : ∀ e, ∀ x ∈ f e, e.worker? = some (worker x.1))
    (hw : ∀ i, worker i ∈ q.allWorkers → i = 0) : ∀ x ∈ q.history.log f, x.1 = 0 := by
  intro x hx
  obtain ⟨y, hy, hxy⟩ := History.mem_log.mp hx
  exact hw x.1 (h.worker_of_mem hb y hy _ (hf y.event x hxy))

/-- The order in which one fetch worker and one emit worker do their work. -/
structure InOrder (p : Pipeline) : Prop where
  /-- The client was called with the admitted items in the order of their admission. -/
  called : p.history.log Event.processCall <+: (p.history.log Event.admission).map (0, ·)
  /-- The results came in the order of the calls. -/
  answered : (p.history.log Event.processResult).map (fun x => (x.1, x.2.1)) <+:
    p.history.log Event.processCall
  /-- The results were reported in their order. -/
  reported : (p.history.log Event.report).map some <+:
    (p.history.log Event.processResult).map fun x => (due x.2).map (x.1, ·)
  /-- The emitter was called with the payloads of the clean results in the order of the results. -/
  emitted : p.history.log Event.emitCall <+:
    ((p.history.log Event.processResult).filterMap fun x => x.2.2.payload?).map (0, ·)

namespace Reaches

variable (h : p₀.Reaches q) (hb : build settings origin = .built p₀)

include h hb

theorem settings_eq : q.settings = settings := by
  rw [h.settings]
  obtain ⟨-, -, rfl⟩ := build_eq_built hb
  rfl

theorem fetcher_alone (hc : settings.numClients = 1) : ∀ i, .fetcher i ∈ q.allWorkers → i = 0 := by
  intro i hi
  simpa [allWorkers, h.settings_eq hb, hc] using hi

theorem emitter_alone (hc : settings.numEmitters = 1) :
    ∀ j, .emitter j ∈ q.allWorkers → j = 0 := by
  intro j hj
  simpa [allWorkers, h.settings_eq hb, hc] using hj

/-- In every state that can be reached with one worker in each pool, whatever is returned,
stalled, closed and polled meanwhile, the work was done in the order of the admissions. -/
theorem in_order (hc : settings.numClients = 1) (he : settings.numEmitters = 1) : InOrder q := by
  have hfetcher := h.fetcher_alone hb hc
  have hcalls : ∀ x ∈ q.history.log Event.processCall, x.1 = 0 :=
    h.alone hb (fun _ _ => Event.worker?_of_processCall) hfetcher
  have hresults : ∀ x ∈ q.history.log Event.processResult, x.1 = 0 :=
    h.alone hb (fun _ _ => Event.worker?_of_processResult) hfetcher
  have hreports : ∀ x ∈ q.history.log Event.report, x.1 = 0 :=
    h.alone hb (fun _ _ => Event.worker?_of_report) hfetcher
  have hemits : ∀ x ∈ q.history.log Event.emitCall, x.1 = 0 :=
    h.alone hb (fun _ _ => Event.worker?_of_emitCall) (h.emitter_alone hb he)
  have hbalanced := h.balanced hb
  obtain ⟨stops, busy, unreported, hledger, -⟩ := h.ledger hb 0
  have hanswered : ((q.history.log Event.processResult).map Prod.snd).map Prod.fst <+:
      (q.history.log Event.processCall).map Prod.snd := by
    rw [map_snd_of_alone hresults, map_snd_of_alone hcalls]
    exact ⟨busy, hledger.calls.symm⟩
  have hreported : ((q.history.log Event.report).map Prod.snd).map some <+:
      ((q.history.log Event.processResult).map Prod.snd).map due := by
    rw [map_snd_of_alone hreports, map_snd_of_alone hresults]
    exact ⟨unreported, hledger.reports.symm⟩
  constructor
  case called =>
    rw [eq_map_of_alone hcalls, ← History.contents_admission]
    exact hbalanced.called_first.map _
  case answered =>
    rw [eq_map_of_alone hresults, eq_map_of_alone hcalls]
    have hindexed := hanswered.map ((0 : Nat), ·)
    simpa [List.map_map, Function.comp_def] using hindexed
  case reported =>
    rw [eq_map_of_alone hreports, eq_map_of_alone hresults]
    have hindexed := hreported.map (Option.map ((0 : Nat), ·))
    simpa [List.map_map, Function.comp_def] using hindexed
  case emitted =>
    rw [eq_map_of_alone hemits]
    refine List.IsPrefix.map _ (hbalanced.emitted_first.trans ?_)
    have hpayloads := hreported.filterMap (fun o => o.bind fun x => x.2.clean?)
    rw [hbalanced.placed, List.map_filterMap]
    simpa [List.filterMap_map, Function.comp_def, due, Return.payload?_eq,
      Option.bind_map] using hpayloads

end Reaches

/-- An item that is known by its name. -/
def named (id : String) : WorkItem := { (default : WorkItem) with id }

/-- A payload that is known by its key. -/
def keyed (key : String) : Payload := { emitKey := { (default : EmitKey) with key }, documents := [] }

/-- The second of four items crashes, and the payload of the first one cannot be emitted. The
pipeline is closed while the fourth item is with the client. -/
def oneByOne : List Action :=
  .invoke 0 .start :: List.replicate 4 (.proceed (.call 0)) ++
    [.proceed (.fetcher 0), .clientReturns 0 (.value ()), .proceed (.emitter 0),
      .proceed (.emitter 0), .invoke 1 (.offerBatch [named "a", named "b"] .endless),
      .proceed (.call 1), .proceed (.fetcher 0), .proceed (.fetcher 0),
      .processReturns 0 (.value (.parsed (keyed "a"))), .proceed (.fetcher 0),
      .invoke 2 (.offer (named "c") .endless), .proceed (.call 2), .proceed (.call 2),
      .proceed (.call 2), .proceed (.emitter 0), .proceed (.fetcher 0), .proceed (.fetcher 0),
      .processReturns 0 (.error (.io default)), .proceed (.fetcher 0), .proceed (.fetcher 0),
      .emitReturns 0 (.error (.failed default default)),
      .processReturns 0 (.value (.parsed (keyed "c"))), .proceed (.fetcher 0),
      .proceed (.emitter 0), .proceed (.emitter 0),
      .invoke 3 (.offer (named "d") .endless), .proceed (.call 3), .proceed (.call 3),
      .proceed (.call 3), .proceed (.fetcher 0), .proceed (.fetcher 0), .close,
      .abort (.fetcher 0)]

theorem oneByOne_in_order :
    ∃ p q, build narrow default = .built p ∧ p.run oneByOne = some q ∧
      narrow.numClients = 1 ∧ narrow.numEmitters = 1 ∧
      q.history.log Event.processCall = ["a", "b", "c", "d"].map (0, named ·) ∧
      (q.history.log Event.report).map (·.2.1.id) = ["a", "b", "c"] ∧
      q.history.log Event.emitCall = ["a", "c"].map (0, keyed ·) ∧ InOrder q := by
  refine ⟨_, _, rfl, rfl, rfl, rfl, rfl, rfl, rfl, ?_⟩
  exact Reaches.in_order ⟨oneByOne, rfl⟩ (show build narrow default = _ from rfl) rfl rfl

end Pipeline

end DocumentPipeline
