import DocumentPipeline.Proofs.Balance
import DocumentPipeline.Proofs.Roster

/-! # What a fetch worker owes

The history of one fetch worker tells where it stands. Between two items it owes nothing:
every item it took was processed, and every result that keeps it running was reported. It
can end while it owes something, but not by finishing. Neither does an emit worker finish
without its signal.
-/
namespace DocumentPipeline

/-- The report that a client's return asks for. Nothing, if it takes the worker down. -/
def due (x : WorkItem × Return ClientError Outcome) : Option (WorkItem × Outcome) :=
  x.2.outcome?.map (x.1, ·)

namespace History

/-- The messages that a fetch worker has received. -/
def receiptsOf (i : Nat) (h : History) : List (Message WorkItem) := share i (h.log Event.receipt)

/-- The items that a fetch worker has handed to its client. -/
def callsOf (i : Nat) (h : History) : List WorkItem := share i (h.log Event.processCall)

/-- What came back from the client of a fetch worker. -/
def resultsOf (i : Nat) (h : History) : List (WorkItem × Return ClientError Outcome) :=
  share i (h.log Event.processResult)

/-- What a fetch worker has reported. -/
def reportsOf (i : Nat) (h : History) : List (WorkItem × Outcome) := share i (h.log Event.report)

end History

open History

namespace Pipeline

/-- The books of one fetch worker: the signals it received, the items that its client still
has, and the results that it has not reported. -/
structure Ledger (i : Nat) (h : History) (stops : List (Message WorkItem))
    (busy : List WorkItem) (unreported : List (Option (WorkItem × Outcome))) : Prop where
  receipts : receiptsOf i h = (callsOf i h).map .data ++ stops
  calls : callsOf i h = (resultsOf i h).map Prod.fst ++ busy
  reports : (resultsOf i h).map due = (reportsOf i h).map some ++ unreported

/-- What the books of a fetch worker show at a stage. -/
def Duty (i : Nat) (stage : Option FetchStage) (h : History) : Prop :=
  match stage with
  | some (.processing item _) => Ledger i h [] [item] []
  | some (.handing item payload _ _) => Ledger i h [] [] [some (item, .parsed payload)]
  | some .exited =>
    (∃ stops busy unreported, Ledger i h stops busy unreported ∧
      (stops = [] ∨ stops = [.stop])) ∧
    ((.fetcher i, .finished) ∈ h.log Event.exit → Ledger i h [.stop] [] [])
  | _ => Ledger i h [] [] []

variable {p q : Pipeline} {i : Nat}

namespace Ledger

variable {h h' : History} {time : Nat} {stops : List (Message WorkItem)} {busy : List WorkItem}
  {unreported : List (Option (WorkItem × Outcome))} {item : WorkItem}

theorem of_logs (hl : Ledger i h stops busy unreported)
    (hr : receiptsOf i h' = receiptsOf i h) (hc : callsOf i h' = callsOf i h)
    (hs : resultsOf i h' = resultsOf i h) (hp : reportsOf i h' = reportsOf i h) :
    Ledger i h' stops busy unreported := by
  obtain ⟨h₁, h₂, h₃⟩ := hl
  exact ⟨by rw [hr, hc, h₁], by rw [hc, hs, h₂], by rw [hs, hp, h₃]⟩

theorem of_sameFlow (hl : Ledger i p.history stops busy unreported) (h : SameFlow p q) :
    Ledger i q.history stops busy unreported :=
  hl.of_logs (congrArg (share i) (h.log Event.Flowless.receipt))
    (congrArg (share i) (h.log Event.Flowless.processCall))
    (congrArg (share i) (h.log Event.Flowless.processResult))
    (congrArg (share i) (h.log Event.Flowless.report))

theorem of_idles (hl : Ledger i p.history stops busy unreported) (h : Idles (.fetcher i) p q) :
    Ledger i q.history stops busy unreported :=
  hl.of_logs (h.share Event.Elsewhere.receipt) (h.share Event.Elsewhere.processCall)
    (h.share Event.Elsewhere.processResult) (h.share Event.Elsewhere.report)

theorem signalled (hl : Ledger i h [] [] []) :
    Ledger i (⟨time, .received i .stop⟩ :: h) [.stop] [] [] where
  receipts := by simpa [receiptsOf, callsOf] using hl.receipts
  calls := by simpa [callsOf, resultsOf] using hl.calls
  reports := by simpa [resultsOf, reportsOf] using hl.reports

theorem called {since : Nat} (hl : Ledger i h [] [] []) :
    Ledger i (⟨time, .processBegan i item⟩ :: ⟨since, .received i (.data item)⟩ :: h)
      [] [item] [] where
  receipts := by simpa [receiptsOf, callsOf] using hl.receipts
  calls := by simpa [callsOf, resultsOf] using hl.calls
  reports := by simpa [resultsOf, reportsOf] using hl.reports

theorem answered {r : Return ClientError Outcome} (hl : Ledger i h [] [item] []) :
    Ledger i (⟨time, .processEnded i item r⟩ :: h) [] [] [due (item, r)] where
  receipts := by simpa [receiptsOf, callsOf] using hl.receipts
  calls := by simpa [callsOf, resultsOf] using hl.calls
  reports := by simpa [resultsOf, reportsOf] using hl.reports

theorem placed {payload : Payload} (hl : Ledger i h stops busy unreported) :
    Ledger i (⟨time, .payloadQueued i payload⟩ :: h) stops busy unreported :=
  hl.of_logs (by simp [receiptsOf]) (by simp [callsOf]) (by simp [resultsOf]) (by simp [reportsOf])

theorem reported {o : Outcome} {took : Nat} (hl : Ledger i h [] [] [some (item, o)]) :
    Ledger i (⟨time, .reported i item o took⟩ :: h) [] [] [] where
  receipts := by simpa [receiptsOf, callsOf] using hl.receipts
  calls := by simpa [callsOf, resultsOf] using hl.calls
  reports := by simpa [resultsOf, reportsOf] using hl.reports

end Ledger

namespace Duty

theorem of_idles (hd : Duty i (p.fetchStage? i) p.history) (h : Idles (.fetcher i) p q) :
    Duty i (q.fetchStage? i) q.history := by
  rcases h.stage i rfl with hs | ⟨hn, hs⟩
  · rw [hs]
    unfold Duty at hd ⊢
    split at hd
    · exact Ledger.of_idles hd h
    · exact Ledger.of_idles hd h
    · obtain ⟨⟨stops, busy, unreported, hl, hstops⟩, hc⟩ := hd
      refine ⟨⟨stops, busy, unreported, Ledger.of_idles hl h, hstops⟩, fun hm => ?_⟩
      exact Ledger.of_idles (hc (h.mem_exit.mp hm)) h
    · exact Ledger.of_idles hd h
  · rw [hn] at hd
    rw [hs]
    exact Ledger.of_idles (p := p) hd h

/-- Whatever a worker is doing, it has not received a signal yet. -/
theorem ledger {stage : FetchStage} {h : History} (hd : Duty i (some stage) h)
    (hx : stage ≠ .exited) : ∃ busy unreported, Ledger i h [] busy unreported := by
  unfold Duty at hd
  split at hd
  · exact ⟨_, _, hd⟩
  · exact ⟨_, _, hd⟩
  · next hs => cases hs; exact absurd rfl hx
  · exact ⟨_, _, hd⟩

theorem at_stage {stage : FetchStage} (hs : q.fetchStage? i = some stage)
    (hd : Duty i (some stage) q.history) : Duty i (q.fetchStage? i) q.history := by
  rw [hs]
  exact hd

/-- A worker that finishes owes nothing; any other ending may leave its books open. -/
theorem endFetcher {w : Fetcher} {e : Ending} {s : FetchStage}
    {stops : List (Message WorkItem)} {busy : List WorkItem}
    {unreported : List (Option (WorkItem × Outcome))}
    (hl : Ledger i p.history stops busy unreported) (hs : stops = [] ∨ stops = [.stop])
    (hst : p.fetchStage? i = some s) (hn : ∀ e, (.fetcher i, e) ∉ p.history.log Event.exit)
    (hc : e = .finished → Ledger i p.history [.stop] [] []) :
    Duty i ((p.endFetcher i w e).fetchStage? i) (p.endFetcher i w e).history := by
  have hflow : SameFlow p (p.endFetcher i w e) := .endFetcher (.refl p)
  have hstage : (p.endFetcher i w e).fetchStage? i = some .exited := by
    unfold Pipeline.endFetcher
    split
    · exact fetchStage?_of_setFetcher hst rfl
    · exact fetchStage?_of_setFetcher hst rfl
  have hexit : (p.endFetcher i w e).history.log Event.exit =
      p.history.log Event.exit ++ [(.fetcher i, e)] := by
    unfold Pipeline.endFetcher
    split <;> simp [endWorker, setFetcher, record, release]
  rw [hstage]
  refine ⟨⟨stops, busy, unreported, Ledger.of_sameFlow hl hflow, hs⟩, fun hm => ?_⟩
  rw [hexit, List.mem_append, List.mem_singleton] at hm
  rcases hm with hm | hm
  · exact absurd hm (hn _)
  · cases hm
    exact Ledger.of_sameFlow (hc rfl) hflow

/-- After its poll a worker that owes nothing still owes nothing. -/
theorem afterFetcherPoll {w : Fetcher} {s : FetchStage} {v : Pipeline × Verdict}
    (hl : Ledger i v.1.history [] [] []) (hst : v.1.fetchStage? i = some s)
    (hn : ∀ e, (.fetcher i, e) ∉ v.1.history.log Event.exit) :
    Duty i ((afterFetcherPoll i w v).fetchStage? i) (afterFetcherPoll i w v).history := by
  obtain ⟨q, v⟩ := v
  cases v with
  | failed e => exact endFetcher hl (.inl rfl) hst hn (by simp)
  | active b =>
    exact at_stage (fetchStage?_of_setFetcher hst rfl) hl
  | injecting inj =>
    exact at_stage (fetchStage?_of_setFetcher hst rfl) hl

theorem tryPoll {w : Fetcher} {s : FetchStage} (hl : Ledger i p.history [] [] [])
    (hst : p.fetchStage? i = some s) (hn : ∀ e, (.fetcher i, e) ∉ p.history.log Event.exit) :
    Duty i ((p.tryPoll i w).fetchStage? i) (p.tryPoll i w).history := by
  unfold Pipeline.tryPoll
  split
  · have hp : Polled (p.requestTracker (.fetcher i)) ((p.requestTracker (.fetcher i)).poll
        (.fetcher i)).1 := .poll _ _
    refine afterFetcherPoll (s := s) ?_ ?_ ?_
    · exact Ledger.of_sameFlow (p := p.requestTracker (.fetcher i)) hl (.of_polled hp)
    · rw [hp.fetchStage]; exact hst
    · rw [hp.log (f := Event.exit) (fun e he => by cases e <;> simp_all)]; exact hn
  · exact at_stage (fetchStage?_of_setFetcher hst rfl) hl

theorem finishItem {w : Fetcher} {item : WorkItem} {o : Outcome} {since : Nat}
    {s : FetchStage} (hl : Ledger i p.history [] [] [some (item, o)])
    (hst : p.fetchStage? i = some s) (hn : ∀ e, (.fetcher i, e) ∉ p.history.log Event.exit) :
    Duty i ((p.finishItem i w item o since).fetchStage? i)
      (p.finishItem i w item o since).history := by
  refine tryPoll (p := { p.record _ with totalProcessed := _ }) hl.reported hst fun e hm => ?_
  exact hn e (by simpa [record] using hm)

/-- One step of the worker itself. -/
theorem fetcher {w : Fetcher} (hd : Duty i (p.fetchStage? i) p.history) (ht : Tracked p)
    (hw : p.fetchers[i]? = some w) (hf : FetcherMove p i w q) :
    Duty i (q.fetchStage? i) q.history := by
  have hst : p.fetchStage? i = some w.stage := by simp [fetchStage?, hw]
  rw [hst] at hd
  have hn (hx : w.stage ≠ .exited) : ∀ e, (.fetcher i, e) ∉ p.history.log Event.exit := by
    intro e
    refine ht.not_mem_exit fun hg => ?_
    rw [show p.fetchStage? i = some .exited from hg] at hst
    exact hx (Option.some.inj hst).symm
  cases hf with
  | abort hx ha =>
    obtain ⟨busy, unreported, hl⟩ := hd.ledger hx
    exact endFetcher hl (.inl rfl) hst (hn hx) (by simp)
  | create hs =>
    rw [hs] at hd
    exact at_stage (fetchStage?_of_setFetcher hst rfl) hd
  | created hs =>
    rw [hs] at hd
    refine at_stage (fetchStage?_of_setFetcher hst rfl) (Ledger.of_sameFlow (p := p) hd ?_)
    exact .single rfl rfl rfl rfl rfl
  | notCreated hs he =>
    rw [hs] at hd
    exact endFetcher (p := p) hd (.inl rfl) hst (hn (by simp [hs]))
      (by rintro rfl; simp at he)
  | acquire hs held =>
    rw [hs] at hd
    exact at_stage (fetchStage?_of_setFetcher hst rfl) hd
  | @receiveStop d ms hs hm =>
    have hx := hn (by simp [hs])
    rw [hs] at hd
    have hl : Ledger i (p.record (.received i .stop)).history [.stop] [] [] := hd.signalled
    exact endFetcher (s := w.stage) hl (.inr rfl) hst
      (fun e he => hx e (by simpa [record] using he)) fun _ => hl
  | @receiveItem d item ms hs hm =>
    rw [hs] at hd
    exact at_stage (fetchStage?_of_setFetcher hst rfl) hd.called
  | idle hs hm hdl =>
    have hx := hn (by simp [hs])
    rw [hs] at hd
    exact tryPoll (p := { p with intakeLock := _ }) hd hst hx
  | @handOver item since r payload hs hr =>
    rw [hs] at hd
    have hl : Ledger i (p.record (.processEnded i item r)).history [] [] [due (item, r)] :=
      hd.answered
    rw [show due (item, r) = some (item, .parsed payload) by simp [due, hr]] at hl
    refine at_stage (fetchStage?_of_setFetcher hst rfl) ?_
    refine Ledger.of_sameFlow (p := p.record (.processEnded i item r)) hl ?_
    exact .single rfl rfl rfl rfl rfl
  | @settle item since r outcome hs hr ho =>
    have hx := hn (by simp [hs])
    rw [hs] at hd
    have hl : Ledger i (p.record (.processEnded i item r)).history [] [] [due (item, r)] :=
      hd.answered
    rw [show due (item, r) = some (item, outcome) by simp [due, hr]] at hl
    exact finishItem (p := p.record _) (s := w.stage) hl hst
      fun e he => hx e (by simpa [record] using he)
  | @lose item since r ending hs hr he =>
    have hx := hn (by simp [hs])
    rw [hs] at hd
    exact endFetcher (p := p.record _) (s := w.stage) hd.answered (.inl rfl) hst
      (fun e he => hx e (by simpa [record] using he)) (by rintro rfl; simp at he)
  | @handed item payload since d hs hq =>
    have hx := hn (by simp [hs])
    rw [hs] at hd
    exact finishItem (p := Pipeline.record { p with outtake := _ } _) (s := w.stage) hd.placed hst
      fun e he => hx e (by simpa [record] using he)
  | @stalled item payload since d hs hq hdl =>
    have hx := hn (by simp [hs])
    rw [hs] at hd
    have hl : Ledger i (p.record (.handoffStalled (.fetcher i) .emitData)).history [] []
        [some (item, .parsed payload)] :=
      Ledger.of_sameFlow (p := p) hd (.record (.refl p) rfl)
    exact endFetcher (p := Pipeline.record { p with outtake := _ } _) (s := w.stage) hl
      (.inl rfl) hst (fun e he => hx e (by simpa [record] using he)) (by simp)
  | @injected inj v hs hi =>
    have hx := hn (by simp [hs])
    rw [hs] at hd
    have hi := inject?_injected hi
    have hidle : Idles (.fetcher i) p v.1 := .injected hi
    refine afterFetcherPoll (s := w.stage) ?_ ?_ fun e he => hx e (hidle.mem_exit.mp he)
    · exact Ledger.of_idles (p := p) hd hidle
    · rcases hidle.stage i rfl with hsame | ⟨hnone, -⟩
      · exact hsame.trans hst
      · rw [hst] at hnone; cases hnone

theorem move (hd : Duty i (p.fetchStage? i) p.history) (ht : Tracked p) (hm : Move p q) :
    Duty i (q.fetchStage? i) q.history := by
  cases hm with
  | @invoke n r q hn hi =>
    have hinvoked : Idles (.fetcher i) p (p.record (.invoked n r)) := .record (.refl p) (by simp)
    exact (hd.of_idles hinvoked).of_idles hi.idles
  | cancel => exact hd.of_idles (.single rfl rfl (by simp))
  | close => exact hd.of_idles (close_idles p)
  | drop => exact hd.of_idles (drop_idles p)
  | tick => exact hd.of_idles (.silent rfl rfl)
  | call hm hc => exact hd.of_idles hc.idles
  | @fetcher k w q hw hf =>
    by_cases hk : i = k
    · subst hk
      exact hd.fetcher ht hw hf
    · exact hd.of_idles (hf.idles (by simpa using hk))
  | emitter hw he => exact hd.of_idles (he.idles (by simp))

end Duty

variable {settings : Settings} {origin : Instant}

/-- Every fetch worker keeps to its books. -/
theorem Reaches.duty (h : p.Reaches q) (hb : build settings origin = .built p) (i : Nat) :
    Duty i (q.fetchStage? i) q.history := by
  refine h.invariant (I := fun r => Duty i (r.fetchStage? i) r.history) ?_ ?_
  · obtain ⟨-, -, rfl⟩ := build_eq_built hb
    exact ⟨rfl, rfl, rfl⟩
  · exact fun r s hr ih hm => ih.move (hr.tracked hb) hm

/-- In every state the books can be read, and there is at most one signal in them. -/
theorem Reaches.ledger (h : p.Reaches q) (hb : build settings origin = .built p) (i : Nat) :
    ∃ stops busy unreported, Ledger i q.history stops busy unreported ∧
      (stops = [] ∨ stops = [.stop]) := by
  have hd := h.duty hb i
  cases hs : q.fetchStage? i with
  | none =>
    rw [hs] at hd
    exact ⟨_, _, _, hd, .inl rfl⟩
  | some stage =>
    rw [hs] at hd
    by_cases hx : stage = .exited
    · subst hx
      exact hd.1
    · obtain ⟨busy, unreported, hl⟩ := hd.ledger hx
      exact ⟨_, _, _, hl, .inl rfl⟩

/-- A fetch worker that has finished received its signal and owes nothing. -/
theorem Reaches.settled (h : p.Reaches q) (hb : build settings origin = .built p)
    (hx : (.fetcher i, .finished) ∈ q.history.log Event.exit) :
    Ledger i q.history [.stop] [] [] := by
  have hd := h.duty hb i
  have hs : q.fetchStage? i = some .exited := (h.tracked hb).gone _ _ hx
  rw [hs] at hd
  exact hd.2 hx

/-- A fetch worker finishes only on a signal. -/
theorem Reaches.fetcher_stopped (h : p.Reaches q) (hb : build settings origin = .built p)
    (hx : (.fetcher i, .finished) ∈ q.history.log Event.exit) :
    (i, .stop) ∈ q.history.log Event.receipt := by
  have hreceived : (.stop : Message WorkItem) ∈ receiptsOf i q.history := by
    rw [(h.settled hb hx).receipts]
    simp
  exact mem_share.mp hreceived

/-- An emit worker that has finished took a signal off the outtake queue. -/
def Dismissed (j : Nat) (h : History) : Prop :=
  (.emitter j, .finished) ∈ h.log Event.exit → (j, .stop) ∈ h.log Event.taking

namespace Dismissed

variable {j : Nat} {w : EmitWorker}

theorem cons {h : History} {x : Entry} (hd : Dismissed j h)
    (hx : x.event ≠ .exited (.emitter j) .finished) : Dismissed j (x :: h) := by
  intro hf
  rw [History.log_cons, List.mem_append] at hf ⊢
  rcases hf with hf | hf
  · exact .inl (hd hf)
  · cases he : x.event with
    | exited t e =>
      rw [he] at hf hx
      obtain ⟨rfl, rfl⟩ : .emitter j = t ∧ .finished = e := by simpa using hf
      exact absurd rfl hx
    | _ => simp [he] at hf

theorem of_idles (hd : Dismissed j p.history) (hi : Idles (.emitter j) p q) :
    Dismissed j q.history := by
  intro hf
  exact (History.log_prefix_of_suffix _ hi.history.suffix).subset (hd (hi.mem_exit.mp hf))

theorem emitter (hd : Dismissed j p.history) (he : EmitterMove p j w q) :
    Dismissed j q.history := by
  cases he with
  | abort => exact hd.cons (by simp)
  | queue => exact hd
  | acquire => exact hd
  | takeStop =>
    intro _
    simp [endEmitter, endWorker, setEmitter, record, release]
  | @takePayload payload =>
    have ht : Dismissed j (p.record (.taken j (.data payload))).history := hd.cons (by simp)
    exact ht.cons (by simp)
  | delivered => exact hd.cons (by simp)
  | @failed payload r ending _ he =>
    have hr : Dismissed j (p.record (.emitEnded j payload r)).history := hd.cons (by simp)
    refine hr.cons ?_
    rintro ⟨⟩
    simp at he

theorem move (hd : Dismissed j p.history) (hm : Move p q) : Dismissed j q.history := by
  cases hm with
  | @invoke n r q hn hi =>
    have hinvoked : Idles (.emitter j) p (p.record (.invoked n r)) := .record (.refl p) (by simp)
    exact hd.of_idles (hinvoked.trans hi.idles)
  | cancel => exact hd.of_idles (.single rfl rfl (by simp))
  | close => exact hd.of_idles (close_idles p)
  | drop => exact hd.of_idles (drop_idles p)
  | tick => exact hd.of_idles (.silent rfl rfl)
  | call hm hc => exact hd.of_idles hc.idles
  | fetcher hw hf => exact hd.of_idles (hf.idles (by simp))
  | @emitter k w q hw he =>
    by_cases hk : j = k
    · subst hk
      exact hd.emitter he
    · exact hd.of_idles (he.idles (by simpa using hk))

end Dismissed

/-- An emit worker finishes only on a signal. -/
theorem Reaches.dismissed (h : p.Reaches q) (hb : build settings origin = .built p) (j : Nat) :
    Dismissed j q.history := by
  refine h.invariant (I := fun r => Dismissed j r.history) ?_ ?_
  · obtain ⟨-, -, rfl⟩ := build_eq_built hb
    intro hf
    simp at hf
  · exact fun r s hr hd hm => hd.move hm

end Pipeline

end DocumentPipeline
