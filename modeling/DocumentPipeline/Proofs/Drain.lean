import DocumentPipeline.Proofs.Accounting
import DocumentPipeline.Proofs.Handshake
import Mathlib.Data.List.Perm.Basic

/-! # A clean drain does everything once

When a check says that no worker is running and the pipeline was not torn down, every
worker has finished on its stop signal. The signals came last in both queues, so nothing
was left behind, and no worker owes a report. What the run did is what one worker would
have done with the admitted items one after the other, up to order.
-/
namespace DocumentPipeline

/-- What a pipeline does to its clients, its reporter and its emitter, and what it counts. -/
structure Effects where
  called : List WorkItem := []
  reported : List (WorkItem × Outcome) := []
  emitted : List Payload := []
  processed : Nat := 0

namespace Effects

/-- One item with what its client returns: it is processed and reported, and a clean payload
is emitted. -/
def serve (e : Effects) (x : WorkItem × Return ClientError Outcome) : Effects :=
  match x.2.outcome? with
  | some (.parsed payload) =>
    { called := e.called ++ [x.1]
      reported := e.reported ++ [(x.1, .parsed payload)]
      emitted := e.emitted ++ [payload]
      processed := e.processed + 1 }
  | some outcome =>
    { e with
      called := e.called ++ [x.1]
      reported := e.reported ++ [(x.1, outcome)]
      processed := e.processed + 1 }
  | none => { e with called := e.called ++ [x.1] }

/-- The items one after the other, each with what its client returns. -/
def sequential (work : List (WorkItem × Return ClientError Outcome)) : Effects :=
  work.foldl serve {}

/-- The effects of a run. -/
def ofRun (p : Pipeline) : Effects where
  called := (p.history.log Event.processCall).map Prod.snd
  reported := (p.history.log Event.report).map Prod.snd
  emitted := (p.history.log Event.emitCall).map Prod.snd
  processed := p.totalProcessed

/-- The same effects in some order. -/
structure Same (a b : Effects) : Prop where
  called : a.called.Perm b.called
  reported : a.reported.Perm b.reported
  emitted : a.emitted.Perm b.emitted
  processed : a.processed = b.processed

theorem sequential_eq (work : List (WorkItem × Return ClientError Outcome)) :
    sequential work =
      { called := work.map Prod.fst
        reported := work.filterMap due
        emitted := work.filterMap fun x => x.2.payload?
        processed := (work.filterMap due).length } := by
  induction work using List.reverseRecOn with
  | nil => rfl
  | append_singleton work x ih =>
    obtain ⟨item, r⟩ := x
    rw [sequential, List.foldl_append, ← sequential, ih]
    cases hr : r.outcome? with
    | none => simp [serve, hr, due, Return.payload?_eq]
    | some outcome => cases outcome <;> simp [serve, hr, due, Return.payload?_eq, Outcome.clean?]

end Effects

/-- When a signal has come out of a queue that data entered before the signals, no data is
left in it. -/
theorem no_content_left {α : Type} {l : List α} {k : Nat} {out rest : List (Message α)}
    (h : l.map .data ++ List.replicate k .stop = out ++ rest) (hs : .stop ∈ out) :
    rest.filterMap Message.content? = [] := by
  rcases List.append_eq_append_iff.mp h with ⟨m, hm, hrest⟩ | ⟨m, hm, -⟩
  · have hstop : ∀ x ∈ rest, x = .stop := fun x hx =>
      List.eq_of_mem_replicate (n := k) (hrest ▸ List.mem_append_right _ hx)
    rw [List.filterMap_eq_nil_iff]
    intro x hx
    rw [hstop x hx]
    rfl
  · have : (.stop : Message α) ∈ l.map .data := hm ▸ List.mem_append_left _ hs
    obtain ⟨a, -, ha⟩ := List.mem_map.mp this
    cases ha

namespace Pipeline

variable {settings : Settings} {origin : Instant} {p q : Pipeline}

/-- All workers are on record as finished. -/
structure Drained (p : Pipeline) : Prop where
  fetchers : p.settings.FetchersIn (p.history.log Event.exit)
  emitters : p.settings.EmittersIn (p.history.log Event.exit)

/-- A check that says that no worker is running is right, unless the pipeline was torn
down. -/
theorem Reaches.drained (h : p.Reaches q) (hb : build settings origin = .built p)
    {past : History} {time n : Nat}
    (hv : ⟨time, .replied n (.active (.ok false))⟩ :: past <:+ q.history)
    (ho : ∀ x ∈ past, x.event.isTeardown = false) : Drained q := by
  have hc := (h.handshake hb).cleared.of_suffix hv
  have hsuffix : past <:+ q.history := (List.suffix_cons _ _).trans hv
  have hsub : ∀ x ∈ past.log Event.collection, x ∈ q.history.log Event.exit := fun x hx =>
    (h.tracked hb).mem_exit_of_collection
      ((History.log_prefix_of_suffix _ hsuffix).subset hx)
  obtain ⟨hf, he⟩ := hc ho
  exact ⟨fun i hi => hsub _ (hf i hi), fun j hj => hsub _ (he j hj)⟩

namespace Drained

/-- No fetch worker owes anything. -/
theorem ledger (hd : Drained q) (h : p.Reaches q) (hb : build settings origin = .built p)
    (i : Nat) : ∃ stops, Ledger i q.history stops [] [] := by
  cases hs : q.fetchStage? i with
  | none =>
    have hduty := h.duty hb i
    rw [hs] at hduty
    exact ⟨_, hduty⟩
  | some stage =>
    obtain ⟨w, hw, -⟩ := Option.map_eq_some_iff.mp hs
    have hlen := (List.getElem?_eq_some_iff.mp hw).1
    have hi := Nat.lt_of_lt_of_le hlen (h.staffed hb).fetchers_le
    exact ⟨_, h.settled hb (hd.fetchers i hi)⟩

/-- Every call of a client has returned. -/
theorem called_perm (hd : Drained q) (h : p.Reaches q) (hb : build settings origin = .built p) :
    ((q.history.log Event.processCall).map Prod.snd).Perm
      (((q.history.log Event.processResult).map Prod.snd).map Prod.fst) := by
  have hperm : (q.history.log Event.processCall).Perm
      ((q.history.log Event.processResult).map fun x => (x.1, x.2.1)) := by
    refine perm_of_share fun i => ?_
    obtain ⟨stops, hl⟩ := hd.ledger h hb i
    have hcalls := hl.calls
    rw [List.append_nil] at hcalls
    rw [share_map Prod.fst]
    exact hcalls
  simpa [Function.comp_def] using hperm.map Prod.snd

/-- Every return has been reported. -/
theorem reported_perm (hd : Drained q) (h : p.Reaches q)
    (hb : build settings origin = .built p) :
    (((q.history.log Event.report).map Prod.snd).map some).Perm
      (((q.history.log Event.processResult).map Prod.snd).map due) := by
  have hperm : ((q.history.log Event.report).map fun x => (x.1, some x.2)).Perm
      ((q.history.log Event.processResult).map fun x => (x.1, due x.2)) := by
    refine perm_of_share fun i => ?_
    obtain ⟨stops, hl⟩ := hd.ledger h hb i
    have hreports := hl.reports
    rw [List.append_nil] at hreports
    rw [share_map some, share_map due]
    exact hreports.symm
  simpa [Function.comp_def] using hperm.map Prod.snd

/-- Every admitted item has been handed to a client. -/
theorem called_eq (hd : Drained q) (h : p.Reaches q) (hb : build settings origin = .built p) :
    (q.history.log Event.processCall).map Prod.snd =
      (History.submissions q.history).flatten := by
  have hbal := h.balanced hb
  obtain ⟨k, hk⟩ := (h.ordered hb).queued
  have hreceived := h.fetcher_stopped hb (hd.fetchers 0 (h.numClients_pos hb))
  have hsplit : (History.submissions q.history).flatten.map .data ++ List.replicate k .stop =
      (q.history.log Event.receipt).map Prod.snd ++ q.intake.messages := by
    rw [← hbal.intake, hk, List.map_flatten, List.flatMap_def]
  have hnone := no_content_left hsplit (List.mem_map_of_mem (f := Prod.snd) hreceived)
  rw [hbal.called, History.contents_map_snd, ← (h.ordered hb).contents, hbal.intake,
    List.filterMap_append, hnone, List.append_nil]

/-- Every payload placed has been handed to the emitter. -/
theorem emitted_eq (hd : Drained q) (h : p.Reaches q) (hb : build settings origin = .built p) :
    (q.history.log Event.emitCall).map Prod.snd =
      (q.history.log Event.placement).map Prod.snd := by
  have hbal := h.balanced hb
  obtain ⟨k, hk⟩ := (h.handshake hb).behind
  have htaken := h.dismissed hb 0 (hd.emitters 0 (h.numEmitters_pos hb))
  have hsplit : ((q.history.log Event.placement).map Prod.snd).map .data ++
      List.replicate k .stop =
        (q.history.log Event.taking).map Prod.snd ++ q.outtake.messages := by
    rw [← hbal.outtake, hk, List.map_map]
    rfl
  have hnone := no_content_left hsplit (List.mem_map_of_mem (f := Prod.snd) htaken)
  rw [hbal.emitted, History.contents_map_snd, ← History.contents_outQueued, hbal.outtake,
    List.filterMap_append, hnone, List.append_nil]

end Drained

/-- What the clients returned, in the order in which the items were admitted. -/
theorem Drained.work (hd : Drained q) (h : p.Reaches q) (hb : build settings origin = .built p) :
    ∃ work : List (WorkItem × Return ClientError Outcome),
      work.map Prod.fst = (History.submissions q.history).flatten ∧
        work.Perm ((q.history.log Event.processResult).map Prod.snd) := by
  have hperm := hd.called_perm h hb
  rw [hd.called_eq h hb] at hperm
  have hcomp := (congrFun (congrFun (List.eq_map_comp_perm (Prod.fst :
    WorkItem × Return ClientError Outcome → WorkItem)) _) _).mpr hperm
  obtain ⟨work, hw, hp⟩ := hcomp
  exact ⟨work, hw.symm, hp⟩

/-- After a clean drain the run has had the effects of the admitted items, processed one
after the other with what the clients returned, up to order. -/
theorem Reaches.clean_drain (h : p.Reaches q) (hb : build settings origin = .built p)
    {past : History} {time n : Nat}
    (hv : ⟨time, .replied n (.active (.ok false))⟩ :: past <:+ q.history)
    (ho : ∀ x ∈ past, x.event.isTeardown = false) :
    ∃ work : List (WorkItem × Return ClientError Outcome),
      work.map Prod.fst = (History.submissions q.history).flatten ∧
      work.Perm ((q.history.log Event.processResult).map Prod.snd) ∧
      (∀ x ∈ work, ∃ outcome, x.2.outcome? = some outcome) ∧
      (Effects.ofRun q).Same (.sequential work) := by
  have hd := h.drained hb hv ho
  have hbal := h.balanced hb
  obtain ⟨work, hitems, hwork⟩ := hd.work h hb
  have hdue : (((q.history.log Event.report).map Prod.snd).map some).Perm (work.map due) :=
    (hd.reported_perm h hb).trans (hwork.symm.map due)
  have hall : ∀ x ∈ work, ∃ outcome, x.2.outcome? = some outcome := by
    intro x hx
    obtain ⟨y, -, hy⟩ := List.mem_map.mp (hdue.mem_iff.mpr (List.mem_map_of_mem hx))
    obtain ⟨outcome, ho, -⟩ := Option.map_eq_some_iff.mp hy.symm
    exact ⟨outcome, ho⟩
  have hreported : ((q.history.log Event.report).map Prod.snd).Perm (work.filterMap due) := by
    simpa [List.filterMap_map, Function.comp_def] using hdue.filterMap id
  refine ⟨work, hitems, hwork, hall, ?_⟩
  rw [Effects.sequential_eq]
  constructor
  · exact .of_eq (by rw [hitems]; exact hd.called_eq h hb)
  · exact hreported
  · have hpayload : work.filterMap (fun x => x.2.payload?) =
        (work.filterMap due).filterMap fun x => x.2.clean? := by
      rw [List.filterMap_filterMap]
      refine List.filterMap_congr fun x _ => ?_
      cases hx : x.2.outcome? <;> simp [Return.payload?_eq, due, hx]
    have hplaced : (q.history.log Event.emitCall).map Prod.snd =
        ((q.history.log Event.report).map Prod.snd).filterMap fun x => x.2.clean? := by
      rw [hd.emitted_eq h hb, hbal.placed, List.map_filterMap, List.filterMap_map]
      refine List.filterMap_congr fun x _ => ?_
      cases hx : x.2.2.clean? <;> simp [hx]
    change ((q.history.log Event.emitCall).map Prod.snd).Perm _
    rw [hplaced, hpayload]
    exact hreported.filterMap _
  · have := hreported.length_eq
    rw [List.length_map] at this
    exact hbal.counted.trans this

/-- A batch of two is drained: the parse of the first item is clean, that of the second one
crashes. The first check sends the stop signal to the emit worker. -/
def drainedBatch : List Action :=
  .invoke 0 .start :: List.replicate 4 (.proceed (.call 0)) ++
    [.invoke 1 (.offerBatch [default, default] .endless), .proceed (.call 1),
      .proceed (.fetcher 0), .clientReturns 0 (.value ()), .proceed (.fetcher 0),
      .proceed (.fetcher 0), .invoke 2 .finish, .proceed (.call 2), .proceed (.call 2),
      .processReturns 0 (.value (.parsed default)), .proceed (.fetcher 0),
      .proceed (.fetcher 0), .proceed (.fetcher 0), .processReturns 0 (.error (.io default)),
      .proceed (.fetcher 0), .proceed (.fetcher 0),
      .invoke 3 .checkActive, .proceed (.call 3), .proceed (.call 3),
      .proceed (.emitter 0), .proceed (.emitter 0), .proceed (.emitter 0),
      .emitReturns 0 (.value ()), .proceed (.emitter 0), .proceed (.emitter 0),
      .invoke 4 .checkActive, .proceed (.call 4)]

theorem drainedBatch_effects :
    ∃ p q, build narrow default = .built p ∧ p.run drainedBatch = some q ∧
      History.submissions q.history = [[default, default]] ∧
      (Effects.ofRun q).processed = 2 ∧ (Effects.ofRun q).emitted = [default] ∧
      ∃ work : List (WorkItem × Return ClientError Outcome),
        work.map Prod.fst = (History.submissions q.history).flatten ∧
        work.Perm ((q.history.log Event.processResult).map Prod.snd) ∧
        (∀ x ∈ work, ∃ outcome, x.2.outcome? = some outcome) ∧
        (Effects.ofRun q).Same (.sequential work) := by
  refine ⟨_, _, rfl, rfl, rfl, rfl, rfl, ?_⟩
  exact Reaches.clean_drain ⟨drainedBatch, rfl⟩ (show build narrow default = _ from rfl)
    (List.suffix_refl _) (by decide)

end Pipeline

end DocumentPipeline
