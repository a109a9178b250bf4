import DocumentPipeline.Proofs.Conclusion
import DocumentPipeline.Proofs.Handoffs
import DocumentPipeline.Proofs.Teardown

/-! # The phases of a pipeline

The phase is read off four parts of the state, and a submission looks at two of them only. They
agree all the same: all workers of a pipeline that was not closed can only have ended because the
end of the work was announced. No part ever goes back, so neither does the phase.
-/
namespace DocumentPipeline

/-- How a submission is met in a phase. -/
def Phase.refusal? : Phase → Option PipelineError
  | notStarted => some .notInitialized
  | running => none
  | draining | stopped | closed => some .shuttingDown

namespace Event

/-- The phase that a caller is told. -/
@[simp] def phase? : Event → Option Phase
  | replied _ (.status s) => some s.phase
  | _ => none

theorem phase?_of_not_isCalling {e : Event} (h : e.isCalling = false) : e.phase? = none := by
  cases e <;> simp_all

end Event

theorem CallStage.phase?_of_records {s : CallStage} {n : Nat} {e : Event} (h : s.records n e)
    (hs : s ≠ .reading) : e.phase? = none := by
  have hpoll (hp : e.isPolling = true) : e.phase? = none := by cases e <;> simp_all
  cases s <;> simp only [records] at h <;> grind [Event.phase?]

namespace History

/-- The end of the work has been announced. -/
def Announces (h : History) : Prop := ∃ x ∈ h, ∃ n, x.event = .invoked n .finish

theorem announces_of_announcement {h : History} (ha : h.announcement ≠ .unmade) : h.Announces := by
  induction h with
  | nil => exact absurd rfl ha
  | cons x h ih =>
    by_cases hx : ∃ n, x.event = .invoked n .finish
    · exact ⟨x, List.mem_cons_self, hx⟩
    · have hprev : announcement h ≠ .unmade := by
        intro hu
        rw [announcement_cons, hu] at ha
        cases he : x.event with
        | invoked n r => cases r <;> simp_all [Announcement.next]
        | _ => simp_all [Announcement.next]
      obtain ⟨y, hy, hn⟩ := ih hprev
      exact ⟨y, List.mem_cons_of_mem _ hy, hn⟩

end History

/-- A status is never behind an earlier one, and it says that the pipeline has stopped only after
the end of the work was announced. -/
def StatusTold (e : Event) (past : History) : Prop :=
  ∀ f, e.phase? = some f →
    (∀ x ∈ past, ∀ g, x.event.phase? = some g → g.rank ≤ f.rank) ∧
      (f = .stopped → past.Announces)

namespace Pipeline

variable {p q p₀ : Pipeline} {n : Nat} {s : CallStage} {settings : Settings} {origin : Instant}

/-- No more workers are collected than there are. -/
theorem Roster.finished_le (h : Roster p) (hs : Staffed p) :
    p.tracker.finished ≤ p.settings.totalWorkers := by
  have hsub : (p.history.log Event.collection).map Prod.fst ⊆ p.allWorkers := by
    intro t ht
    obtain ⟨⟨t, e⟩, hm, rfl⟩ := List.mem_map.mp ht
    exact h.mem_allWorkers hs (h.mem_exit_of_collection hm)
  have hle := (h.collected_nodup.subperm hsub).length_le
  rw [List.length_map, ← h.finished] at hle
  simpa [allWorkers, Settings.totalWorkers] using hle

theorem CallMove.flags (h : CallMove p n s q) :
    (p.started = true → q.started = true) ∧ (p.shuttingDown = true → q.shuttingDown = true) := by
  have hoffer {item : WorkItem} {wait : Wait} {v : Pipeline × Verdict} (hv : CallsKept p v.1) :
      (p.started = true → (afterOfferPoll n item wait v).started = true) ∧
        (p.shuttingDown = true → (afterOfferPoll n item wait v).shuttingDown = true) := by
    obtain ⟨r, v⟩ := v
    cases v <;> exact ⟨hv.started.trans, hv.shuttingDown⟩
  have hcheck {v : Pipeline × Verdict} (hv : CallsKept p v.1) :
      (p.started = true → (afterCheckPoll n v).started = true) ∧
        (p.shuttingDown = true → (afterCheckPoll n v).shuttingDown = true) := by
    obtain ⟨r, v⟩ := v
    cases v <;> exact ⟨hv.started.trans, hv.shuttingDown⟩
  cases h with
  | offerPolled => exact hoffer (.of_polled (.poll _ _))
  | offerInjected hi => exact hoffer (.injected (inject?_injected hi))
  | checked => exact hcheck (.of_polled (.poll _ _))
  | checkInjected hi => exact hcheck (.injected (inject?_injected hi))
  | opened => exact ⟨fun _ => rfl, id⟩
  | stalledOut => exact ⟨id, fun _ => rfl⟩
  | _ => exact ⟨id, id⟩

/-- Neither the start nor the shutdown of a pipeline is taken back. -/
theorem Move.flags (h : Move p q) :
    (p.started = true → q.started = true) ∧ (p.shuttingDown = true → q.shuttingDown = true) := by
  have kept {r : Pipeline} (hk : CallsKept p r) :
      (p.started = true → r.started = true) ∧ (p.shuttingDown = true → r.shuttingDown = true) :=
    ⟨hk.started.trans, hk.shuttingDown⟩
  cases h with
  | invoke hn hi =>
    cases hi with
    | finishAgain | finish => exact ⟨id, fun _ => rfl⟩
    | _ => exact ⟨id, id⟩
  | cancel | tick => exact ⟨id, id⟩
  | close => exact kept (.close p)
  | drop => exact kept (.drop p)
  | call hm hc => exact hc.flags
  | fetcher hw hf => exact kept hf.callsKept
  | emitter hw he => exact kept he.callsKept

/-- Collected workers stay collected. -/
theorem Move.finished_le (h : Move p q) (hr : p₀.Reaches p) (hq : p₀.Reaches q)
    (hb : build settings origin = .built p₀) : p.tracker.finished ≤ q.tracker.finished := by
  rw [(hr.tracked hb).finished, (hq.tracked hb).finished]
  exact (History.log_prefix_of_suffix Event.collection h.suffix).length_le

/-- The phase never goes back. -/
theorem Move.phase_le (h : Move p q) (hr : p₀.Reaches p) (hq : p₀.Reaches q)
    (hb : build settings origin = .built p₀) : p.phase.rank ≤ q.phase.rank := by
  have hstarted := h.flags.1
  have hdown := h.flags.2
  have hclosed := h.closed
  have hall : p.tracker.finished = p.settings.totalWorkers →
      q.tracker.finished = q.settings.totalWorkers := by
    have hle := h.finished_le hr hq hb
    have hmax := (hq.tracked hb).finished_le (hq.staffed hb)
    rw [h.settings] at hmax ⊢
    omega
  unfold phase
  grind [Phase.rank]

/-- A pipeline that was not closed comes to its end only through the announcement that there is no
more work: the fetch workers finish on its stop signals. -/
theorem Reaches.announced_of_finished (h : p₀.Reaches p) (hb : build settings origin = .built p₀)
    (hopen : p.closed ≠ true) (hall : p.tracker.finished = p.settings.totalWorkers) :
    p.shuttingDown = true ∧ p.history.Announces := by
  have ht := h.tracked hb
  obtain ⟨hin, -⟩ := ht.all_finished_of_open (h.staffed hb) hopen hall
  have hexit := ht.mem_exit_of_collection (hin 0 (h.numClients_pos hb))
  have hstop : .stop ∈ p.history.log Event.enqueued := by
    rw [(h.balanced hb).intake]
    exact List.mem_append_left _ (List.mem_map_of_mem (h.fetcher_stopped hb hexit))
  refine ⟨((h.ordered hb).sealed hstop).1, History.announces_of_announcement fun hu => ?_⟩
  have hsent : 0 < p.history.fetchStops := List.count_pos_iff.mpr hstop
  have ha := h.announced hb
  rw [hu] at ha
  cases ha with
  | unmade _ hnone => omega

theorem Reaches.announces_of_stopped (h : p₀.Reaches p) (hb : build settings origin = .built p₀)
    (hp : p.phase = .stopped) : p.history.Announces := by
  have hall := fun hopen hall => (h.announced_of_finished hb hopen hall).2
  unfold phase at hp
  grind

/-- Whether a submission is refused, and with what error, can be read off the phase. -/
theorem Reaches.refusal?_eq (h : p₀.Reaches p) (hb : build settings origin = .built p₀) :
    p.refusal? = p.phase.refusal? := by
  have hclosed := (h.guarded hb).refuses
  have hall := fun hopen hall => (h.announced_of_finished hb hopen hall).1
  unfold refusal? phase
  grind [Phase.refusal?]

/-- What callers have been told is not ahead of the pipeline, and was never taken back. -/
structure Told (p : Pipeline) : Prop where
  reached : ∀ x ∈ p.history, ∀ f, x.event.phase? = some f → f.rank ≤ p.phase.rank
  told : History.Each StatusTold p.history

namespace Told

/-- Nobody is told anything. -/
theorem of_adds (h : Told p) (hle : p.phase.rank ≤ q.phase.rank)
    (ha : History.Adds (fun e => e.phase? = none) p.history q.history) : Told q where
  reached x hx f hf := by
    rcases ha.mem hx with hn | hx
    · rw [hn] at hf; cases hf
    · exact Nat.le_trans (h.reached x hx f hf) hle
  told := ha.each (fun e past he f hf => by rw [he] at hf; cases hf) h.told

theorem move (h : Told p) (hr : p₀.Reaches p) (hq : p₀.Reaches q)
    (hb : build settings origin = .built p₀) (hm : Move p q) : Told q := by
  have hle := hm.phase_le hr hq hb
  have kept {r : Pipeline} (hk : CallsKept p r) :
      History.Adds (fun e => e.phase? = none) p.history r.history :=
    hk.history.mono fun _ => Event.phase?_of_not_isCalling
  cases hm with
  | @invoke n r q hn hi =>
    refine h.of_adds hle ?_
    cases hi with
    | start | check | status | offer | batch | finish => exact .one rfl
    | _ => exact .trans (.one (x := ⟨p.now, .invoked n _⟩) rfl) (.one rfl)
  | cancel => exact h.of_adds hle (.one rfl)
  | close => exact h.of_adds hle (kept (.close p))
  | drop => exact h.of_adds hle (kept (.drop p))
  | tick => exact h.of_adds hle (.refl _)
  | @call n s q hm hc =>
    by_cases hs : s = .reading
    · subst hs
      cases hc with
      | read =>
        refine ⟨fun x hx f hf => ?_, fun f hf => ?_, h.told⟩
        · rcases List.mem_cons.mp hx with rfl | hx
          · cases hf
            exact hle
          · exact Nat.le_trans (h.reached x hx f hf) hle
        · cases hf
          exact ⟨h.reached, hr.announces_of_stopped hb⟩
      | batchAdmitted hl | batchExpired hl | batchPaused hl => cases hl
    · exact h.of_adds hle (hc.records.mono fun e he => CallStage.phase?_of_records he hs)
  | fetcher hw hf => exact h.of_adds hle (kept hf.callsKept)
  | emitter hw he => exact h.of_adds hle (kept he.callsKept)

end Told

theorem Reaches.told (h : p₀.Reaches p) (hb : build settings origin = .built p₀) : Told p := by
  obtain ⟨as, has⟩ := h
  refine run_induction (I := fun _ r => Told r) has ?_ fun bs a r s hr ih hs => ?_
  · obtain ⟨-, -, rfl⟩ := build_eq_built hb
    exact ⟨fun _ hx => absurd hx List.not_mem_nil, trivial⟩
  · have hreach : p₀.Reaches r := ⟨bs, hr⟩
    exact ih.move hreach (hreach.step hs) hb (step_move hs)

/-- The lifecycle of a pipeline, as its callers come to know it. -/
structure Lifecycle (p : Pipeline) : Prop where
  /-- No status is behind an earlier one. -/
  forward : ∀ (later past : History) (time n : Nat) (s : PipelineStatus),
    p.history = later ++ ⟨time, .replied n (.status s)⟩ :: past →
      ∀ (earlier m : Nat) (t : PipelineStatus), ⟨earlier, .replied m (.status t)⟩ ∈ past →
        t.phase.rank ≤ s.phase.rank
  /-- A pipeline is said to have stopped only after the end of the work was announced. -/
  stopped : ∀ (later past : History) (time n : Nat) (s : PipelineStatus),
    p.history = later ++ ⟨time, .replied n (.status s)⟩ :: past → s.phase = .stopped →
      ∃ x ∈ past, ∃ m, x.event = .invoked m .finish
  /-- Whether a submission is refused, and with what error, can be read off the phase. -/
  refusal : p.refusal? = p.phase.refusal?
  /-- An item that has come to the producer lock is refused, or goes on. -/
  offering : ∀ n item wait, (n, .offering item wait) ∈ p.calls →
    p.producerLock.heldBy (.call n) = true →
      p.step (.proceed (.call n)) = some (match p.phase.refusal? with
        | some e => p.reply n (.offered (.error e))
        | none => (p.setCall n (.offerPolling item wait)).requestTracker (.call n))
  /-- A batch that has come to the producer lock is refused, or looks for room. -/
  batching : ∀ n items wait, (n, .batching items wait) ∈ p.calls →
    p.producerLock.heldBy (.call n) = true →
      p.step (.proceed (.call n)) = some (match p.phase.refusal? with
        | some e => p.reply n (.offered (.error e))
        | none => p.testBatch n items (wait.deadline? p.now))

/-- In every state that can be reached, the phase is ahead of all phases that were told, and it
decides how a submission is met. -/
theorem Reaches.lifecycle (h : p₀.Reaches p) (hb : build settings origin = .built p₀) :
    Lifecycle p where
  forward later past time n s hv earlier m t ht := by
    have htold : StatusTold (.replied n (.status s)) past :=
      (h.told hb).told.of_suffix ⟨later, hv.symm⟩
    exact (htold s.phase rfl).1 _ ht t.phase rfl
  stopped later past time n s hv hs := by
    have htold : StatusTold (.replied n (.status s)) past :=
      (h.told hb).told.of_suffix ⟨later, hv.symm⟩
    exact (htold s.phase rfl).2 hs
  refusal := h.refusal?_eq hb
  offering n item wait hm held := by
    have hstage := (h.sections hb).callStage?_eq hm
    cases hphase : p.phase.refusal? <;>
      simp [Pipeline.step, proceed?, hstage, stepCall?, held, h.refusal?_eq hb, hphase]
  batching n items wait hm held := by
    have hstage := (h.sections hb).callStage?_eq hm
    cases hphase : p.phase.refusal? <;>
      simp [Pipeline.step, proceed?, hstage, stepCall?, held, h.refusal?_eq hb, hphase]

/-- A caller asks for the status. -/
def look (n : Nat) : List Action := [.invoke n .status, .proceed (.call n)]

/-- A pipeline without work goes through all its phases and is looked at in each of them. In the end
an item has come to the producer lock. -/
def fullLife : List Action :=
  look 1 ++ .invoke 0 .start :: List.replicate 4 (.proceed (.call 0)) ++ look 2 ++
    [.invoke 3 .finish, .proceed (.call 3), .proceed (.call 3)] ++ look 4 ++
    [.proceed (.fetcher 0), .clientReturns 0 (.value ()), .proceed (.fetcher 0),
      .proceed (.fetcher 0), .invoke 5 .checkActive, .proceed (.call 5), .proceed (.call 5),
      .proceed (.emitter 0), .proceed (.emitter 0), .proceed (.emitter 0),
      .invoke 6 .checkActive, .proceed (.call 6)] ++ look 7 ++ .close :: look 8 ++
    [.invoke 9 (.offer default .endless)]

theorem fullLife_phases :
    ∃ p q, build narrow default = .built p ∧ p.run fullLife = some q ∧
      q.history.reverse.filterMap (fun x => x.event.phase?) = Phase.all ∧
      (9, .offering default .endless) ∈ q.calls ∧ q.producerLock.heldBy (.call 9) = true ∧
      Lifecycle q := by
  refine ⟨_, _, rfl, rfl, rfl, List.mem_singleton.mpr rfl, rfl, ?_⟩
  exact Reaches.lifecycle ⟨fullLife, rfl⟩ (show build narrow default = _ from rfl)

end Pipeline

end DocumentPipeline
