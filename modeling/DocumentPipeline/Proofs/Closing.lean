import DocumentPipeline.Proofs.Causes
import DocumentPipeline.Proofs.Conclusion
import DocumentPipeline.Proofs.Escapes
import DocumentPipeline.Proofs.Signals
import DocumentPipeline.Proofs.Teardown

/-! # Checks of a closed pipeline

A check that is not told of a failure says whether a worker is still running, and it is right. In
a pipeline that has been closed nobody announces the end of the work, and all workers have been
asked to abort. A fetch worker that is under way at that moment may still take a stop signal that is
at hand and finish. So if no worker fails, a check tells of an error for one of two reasons only: an
announcement that was pending already waits for a slot that nobody frees, or all fetch workers have
finished but the emit workers had not been told to stop, and the signals for them find no room.
-/
namespace DocumentPipeline

namespace History

/-- What had happened before the latest call under a number. -/
def beforeCall (n : Nat) : History → History
  | [] => []
  | x :: h =>
    match x.event with
    | .invoked m _ => if m = n then h else beforeCall n h
    | _ => beforeCall n h

variable {n : Nat} {x : Entry} {h past : History}

theorem beforeCall_of_ne (hx : x.event.caller? ≠ some n) :
    beforeCall n (x :: h) = beforeCall n h := by
  obtain ⟨time, e⟩ := x
  cases e <;> simp_all [beforeCall]

theorem beforeCall_of_polling (ha : Adds (fun e => e.isPolling = true) past h) :
    beforeCall n h = beforeCall n past := by
  refine ha.ignored fun x g hx => beforeCall_of_ne ?_
  obtain ⟨time, e⟩ := x
  cases e <;> simp_all

theorem beforeCall_suffix : beforeCall n h <:+ h := by
  induction h with
  | nil => exact List.suffix_rfl
  | cons x h ih =>
    rw [beforeCall]
    split
    · split
      · exact List.suffix_cons _ _
      · exact ih.trans (List.suffix_cons _ _)
    · exact ih.trans (List.suffix_cons _ _)

theorem opened_of_suffix (hs : past <:+ h) (ho : past.opened = true) : h.opened = true := by
  obtain ⟨new, rfl⟩ := hs
  induction new with
  | nil => exact ho
  | cons x new ih =>
    rw [List.cons_append, opened]
    split
    · rfl
    · exact ih

/-- A failure that was not latched in the past has been latched since. -/
theorem latched_of_failure? {f : Failure} {new : History} (hf : (new ++ past).failure? = some f)
    (hp : past.failure? = none) :
    ∃ (later : History) (x : Entry) (before : History),
      new = later ++ x :: before ∧ x.event = .latched f := by
  induction new with
  | nil => cases hp.symm.trans hf
  | cons x new ih =>
    by_cases hl : ∃ g, x.event = .latched g
    · obtain ⟨g, hg⟩ := hl
      rw [List.cons_append, failure?, hg] at hf
      obtain rfl := Option.some.inj hf
      exact ⟨[], x, new, rfl, hg⟩
    · rw [List.cons_append, failure?_of_ne fun g hg => hl ⟨g, hg⟩] at hf
      obtain ⟨later, y, before, rfl, hy⟩ := ih hf
      exact ⟨x :: later, y, before, rfl, hy⟩

end History

/-- A check tells of an error only if the pipeline has not been opened or a failure is latched. It
says that a worker is running only if one of these had not ended when the check was made. -/
def Reported (workers : List Task) : Event → History → Prop
  | .replied _ (.active (.error e)), past =>
    e = .notInitialized ∧ past.opened = false ∨ ∃ f, past.failure? = some f ∧ e = f.error
  | .replied n (.active (.ok true)), past =>
    ∃ t ∈ workers, ∀ e, (t, e) ∉ (past.beforeCall n).log Event.exit
  | _, _ => True

theorem reported_of_not_isVerdict {workers : List Task} {e : Event} {past : History}
    (h : e.isVerdict = false) : Reported workers e past := by
  cases e with
  | replied n a => cases a <;> simp_all [Reported]
  | _ => trivial

theorem reported_of_isPolling {workers : List Task} {e : Event} {past : History}
    (h : e.isPolling = true) : Reported workers e past := by
  cases e <;> simp_all [Reported]

namespace Pipeline

variable {p q p₀ : Pipeline} {n i : Nat} {t : Task} {s u : CallStage} {settings : Settings}
  {origin : Instant}

/-- A collection that finds no failure takes notice of all workers that have ended. -/
theorem exits_of_collect (hc : p.collect = (q, none)) : q.tracker.exits = [] := by
  have hfrom (exits : List (Task × Ending)) (p : Pipeline) (he : p.tracker.exits = exits)
      (hc : p.collectFrom exits = (q, none)) : q.tracker.exits = [] := by
    induction exits generalizing p with
    | nil => cases hc; exact he
    | cons x rest ih =>
      obtain ⟨t, e⟩ := x
      rw [collectFrom] at hc
      split at hc
      · refine ih _ ?_ hc
        simp only [countExit, record]
        split <;> rfl
      · cases hc
  exact hfrom _ p rfl hc

theorem PollResult.exits_of_injecting {k : Injection} (h : PollResult p t (q, .injecting k)) :
    q.tracker.exits = [] := by
  generalize hv : (q, Verdict.injecting k) = v at h
  cases h with
  | injecting _ _ hc =>
    have hnone := exits_of_collect hc
    cases hv
    exact hnone
  | notStarted | latched | failed | noEmitters | active => cases hv

namespace Roster

/-- When every worker has been collected, the tracker has counted them all. -/
theorem finished_of_all (h : Roster p) (hs : Staffed p)
    (hall : ∀ t ∈ p.allWorkers, ∃ e, (t, e) ∈ p.history.log Event.collection) :
    p.tracker.finished = p.settings.totalWorkers := by
  have hperm : ((p.history.log Event.collection).map Prod.fst).Perm p.allWorkers := by
    refine (List.perm_ext_iff_of_nodup h.collected_nodup p.allWorkers_nodup).mpr fun t => ?_
    rw [List.mem_map]
    constructor
    · rintro ⟨⟨t, e⟩, hm, rfl⟩
      exact h.mem_allWorkers hs (h.mem_exit_of_collection hm)
    · intro ht
      obtain ⟨e, he⟩ := hall t ht
      exact ⟨(t, e), he, rfl⟩
  have hlen := hperm.length_eq
  rw [List.length_map, ← h.finished] at hlen
  rw [hlen]
  simp [allWorkers, Settings.totalWorkers]

/-- When the tracker has not counted all workers, one has not been collected. -/
theorem exists_uncollected (h : Roster p) (hs : Staffed p)
    (hf : p.tracker.finished ≠ p.settings.totalWorkers) :
    ∃ t ∈ p.allWorkers, ∀ e, (t, e) ∉ p.history.log Event.collection := by
  by_contra hn
  push Not at hn
  exact hf (h.finished_of_all hs hn)

end Roster

/-- What checks say is what they have come to. -/
structure Reporting (p : Pipeline) : Prop where
  reported : History.Each (Reported p.allWorkers) p.history
  /-- A check that injects has taken notice of all that had ended before it was made. -/
  noticed : ∀ n i, (n, .checkInjecting i) ∈ p.calls →
    ∀ x ∈ (p.history.beforeCall n).log Event.exit, x ∈ p.history.log Event.collection

namespace Reporting

theorem reported_afterCheckPoll {workers : List Task} {v : Pipeline × Verdict}
    (hj : History.Each (Reported workers) v.1.history)
    (hf : ∀ e, v.2 = .failed e → e = .notInitialized ∧ v.1.history.opened = false ∨
      ∃ f, v.1.history.failure? = some f ∧ e = f.error)
    (ha : v.2 = .active true →
      ∃ t ∈ workers, ∀ e, (t, e) ∉ (v.1.history.beforeCall n).log Event.exit) :
    History.Each (Reported workers) (afterCheckPoll n v).history := by
  obtain ⟨q, v⟩ := v
  cases v with
  | failed e => exact ⟨hf e rfl, hj⟩
  | active b =>
    cases b with
    | true => exact ⟨ha rfl, hj⟩
    | false => exact ⟨trivial, hj⟩
  | injecting i => exact hj

/-- A check polls. -/
theorem reported_checked (h : Reporting p) (hr : p₀.Reaches p)
    (hb : build settings origin = .built p₀) :
    History.Each (Reported p.allWorkers) (afterCheckPoll n (p.poll (.call n))).history := by
  have hv := poll_result p (.call n)
  have ht := (hr.tracked hb).poll (.call n)
  have hs := (hr.staffed hb).of_kept (.of_polled (Polled.poll p (.call n)))
  have hset := (Polled.poll p (.call n)).settings
  have hj := (Polled.poll p (.call n)).polling.each (fun _ _ he => reported_of_isPolling he)
    h.reported
  have hpos := hr.numEmitters_pos hb
  generalize p.poll (.call n) = v at hv ht hs hset hj
  refine reported_afterCheckPoll hj (fun e he => ?_) fun ha => ?_
  · cases hv with
    | notStarted hn => cases he; exact .inl ⟨rfl, (hr.watched hb).opened.trans hn⟩
    | latched _ hf => cases he; exact .inr ⟨_, (hr.latching hb).kept.trans hf, rfl⟩
    | failed _ _ hc =>
      cases he
      obtain ⟨r, -, rfl⟩ := collects_of_collect_failed hc
      exact .inr ⟨_, rfl, rfl⟩
    | injecting | noEmitters | active => cases he
  · cases hv with
    | @active q _ _ hc =>
      obtain ⟨t, hw, hn⟩ := ht.exists_uncollected hs (by simpa using ha)
      rw [allWorkers, hset] at hw
      refine ⟨t, hw, fun e he => hn e ?_⟩
      have hexit := (History.log_prefix_of_suffix Event.exit History.beforeCall_suffix).subset he
      rwa [ht.exits, exits_of_collect hc, List.append_nil] at hexit
    | noEmitters _ _ hc hz => rw [(Polled.of_collect hc).settings] at hz; omega
    | notStarted | latched | failed | injecting => cases ha

/-- A check that injects comes to its end. -/
theorem reported_injected {k : Injection} {v : Pipeline × Verdict} (h : Reporting p)
    (hr : p₀.Reaches p) (hb : build settings origin = .built p₀)
    (hm : (n, .checkInjecting k) ∈ p.calls) (hi : Injected p (.call n) k v) :
    History.Each (Reported p.allWorkers) (afterCheckPoll n v).history := by
  have ht := hr.tracked hb
  have hpolling := hi.polling
  have hj := hpolling.each (fun _ _ he => reported_of_isPolling he) h.reported
  refine reported_afterCheckPoll hj (fun e he => ?_) fun ha => ?_
  · cases hi with
    | last | next => cases he
    | stalled => cases he; exact .inr ⟨_, rfl, rfl⟩
  · cases hi with
    | last =>
      have hf : p.tracker.finished ≠ p.settings.totalWorkers :=
        of_decide_eq_true (Verdict.active.inj ha)
      obtain ⟨t, hw, hn⟩ := ht.exists_uncollected (hr.staffed hb) hf
      refine ⟨t, hw, fun e he => hn e (h.noticed n k hm _ ?_)⟩
      rwa [History.beforeCall_of_polling hpolling] at he
    | next | stalled => cases ha

/-- A check begins to inject with its poll. -/
theorem noticed_call {k : Injection} (h : Reporting p) (hr : p₀.Reaches p)
    (hb : build settings origin = .built p₀) (hm : (n, s) ∈ p.calls) (hc : CallMove p n s q)
    (hq : (n, .checkInjecting k) ∈ q.calls) :
    ∀ x ∈ (q.history.beforeCall n).log Event.exit, x ∈ q.history.log Event.collection := by
  cases hc with
  | startedBefore | opened | offerRefused | sent | unsent | batchRefused | batchAdmitted
  | batchExpired | noStops | lastStop | stalledOut | read => exact absurd hq not_mem_reply
  | launching | offerAccepted | launchFetcher | launchEmitter | batchPaused | firstStop
  | nextStop | stopStalled => cases stage_of_setCall hq
  | offerPolled | offerInjected =>
    revert hq
    generalize hv : afterOfferPoll _ _ _ _ = r
    unfold afterOfferPoll at hv
    split at hv <;> subst hv <;> intro hq
    · exact absurd hq not_mem_reply
    · cases stage_of_setCall hq
    · cases stage_of_setCall hq
  | checked =>
    have hv := poll_result p (.call n)
    have ht := (hr.tracked hb).poll (.call n)
    generalize p.poll (.call n) = v at hv ht hq
    obtain ⟨r, v⟩ := v
    cases v with
    | failed | active => exact absurd hq not_mem_reply
    | injecting j =>
      intro x hx
      have hexit := (History.log_prefix_of_suffix Event.exit History.beforeCall_suffix).subset hx
      change x ∈ r.history.log Event.exit at hexit
      rwa [ht.exits, hv.exits_of_injecting, List.append_nil] at hexit
  | @checkInjected j v hi =>
    have hi := inject?_injected hi
    obtain ⟨r, v⟩ := v
    cases v with
    | failed | active => exact absurd hq not_mem_reply
    | injecting j' =>
      have hpolling := hi.polling
      intro x hx
      change x ∈ (r.history.beforeCall n).log Event.exit at hx
      rw [History.beforeCall_of_polling hpolling] at hx
      exact (History.log_prefix_of_suffix _ hpolling.suffix).subset (h.noticed n j hm x hx)

theorem move (h : Reporting p) (hr : p₀.Reaches p) (hb : build settings origin = .built p₀)
    (hm : Move p q) : Reporting q where
  reported := by
    rw [show q.allWorkers = p.allWorkers by rw [allWorkers, hm.settings, ← allWorkers]]
    have calm {r s : Pipeline} (hc : Calm r s)
        (hj : History.Each (Reported p.allWorkers) r.history) :
        History.Each (Reported p.allWorkers) s.history :=
      hc.history.each (fun _ _ he => reported_of_not_isVerdict he) hj
    cases hm.judged (hr.handshake hb) with
    | calm hc => exact calm hc h.reported
    | polled hpr _ hq =>
      exact calm hq ((Polled.poll _ _).polling.each (fun _ _ he => reported_of_isPolling he)
        (calm hpr h.reported))
    | checked => exact h.reported_checked hr hb
    | injected hcall hi => exact h.reported_injected hr hb hcall hi
    | stalledOut => exact ⟨trivial, trivial, h.reported⟩
  noticed n k hq := by
    rcases hm.origin (hr.sections hb) hq with ⟨s, hs, hc⟩ | ⟨hold, hw⟩ | ⟨r, -, hstage⟩
    · exact h.noticed_call hr hb hs hc hq
    · intro x hx
      rw [hw.ignored fun _ _ => History.beforeCall_of_ne] at hx
      exact (History.log_prefix_of_suffix _ hm.suffix).subset (h.noticed n k hold x hx)
    · cases r <;> cases hstage

end Reporting

theorem Reaches.reporting (h : p₀.Reaches p) (hb : build settings origin = .built p₀) :
    Reporting p := by
  refine h.invariant ?_ fun r s hr ih hm => ih.move hr hb hm
  obtain ⟨-, -, rfl⟩ := build_eq_built hb
  exact ⟨trivial, by simp⟩

/-- A stop signal is at hand for the fetch workers: it is on the queue, or an announcement that is
pending may send it. -/
def Signalled (p : Pipeline) : Prop :=
  .stop ∈ p.intake.messages ∨ ∃ n s, (n, s) ∈ p.calls ∧ s.announces = true

/-- The stalls that a pipeline may still come to when it is closed. One is that of an announcement
that is pending. The other is that of the emit stop signals if they are due: all fetch workers have
finished by then, each before the pipeline was closed, or with a signal at hand and though it had
been asked to abort. -/
def MayStall (p : Pipeline) (f : Failure) (past : History) : Prop :=
  f = p.settings.stall ∧ (∃ n s, (n, s) ∈ p.calls ∧ s.announces = true) ∨
    f = .stalled Cargo.emitStop.label p.ceiling ∧ p.tracker.emitStopSent = false ∧
      p.settings.FetchersIn (past.log Event.exit) ∧
        ∀ i < p.settings.numClients.toNat, (.fetcher i, .finished) ∈ p.history.log Event.exit ∨
          p.Signalled ∧ p.isAsked (.fetcher i)

theorem MayStall.of_suffix {f : Failure} {past h : History} (hm : p.MayStall f past)
    (hs : past <:+ h) : p.MayStall f h := by
  rcases hm with hm | ⟨hf, hsent, hin, hby⟩
  · exact .inl hm
  · exact .inr ⟨hf, hsent,
      fun i hi => (History.log_prefix_of_suffix Event.exit hs).subset (hin i hi), hby⟩

/-- Whether the event latches nothing but a stall that the closed pipeline may come to. -/
def MayRecord (p : Pipeline) (e : Event) (past : History) : Prop :=
  ∀ f, e = .latched f → p.MayStall f past

theorem mayRecord_of_ne {e : Event} {past : History} (h : ∀ f, e ≠ .latched f) :
    p.MayRecord e past :=
  fun f hf => absurd hf (h f)

/-- What becomes of a closed pipeline as long as no worker fails. -/
structure Closing (p q : Pipeline) : Prop where
  closed : q.closed = true
  started : q.started = true
  calls : ∀ n s, (n, s) ∈ q.calls → s.announces = true →
    ∃ u, (n, u) ∈ p.calls ∧ u.announces = true
  suffix : p.history <:+ q.history
  stops : ¬ p.Signalled → q.history.fetchStops = p.history.fetchStops
  sent : p.tracker.emitStopSent = true → q.tracker.emitStopSent = true
  latched : History.Each (fun e past => p.history <:+ past → p.MayRecord e past) q.history

/-- The emit stop signals are sent once and for all. -/
theorem PollResult.sent {v : Pipeline × Verdict} (h : PollResult p t v)
    (hs : p.tracker.emitStopSent = true) : v.1.tracker.emitStopSent = true := by
  cases h with
  | notStarted | latched => exact hs
  | failed _ _ hc =>
    obtain ⟨r, hr, rfl⟩ := collects_of_collect_failed hc
    exact hr.sent.trans hs
  | injecting _ _ hc _ hn => exact (collects_of_collect hc).sent.trans hs
  | noEmitters => rfl
  | active _ _ hc => exact (collects_of_collect hc).sent.trans hs

theorem sent_afterCheckPoll {v : Pipeline × Verdict} :
    (afterCheckPoll n v).tracker.emitStopSent = v.1.tracker.emitStopSent := by
  obtain ⟨q, v⟩ := v
  cases v <;> rfl

theorem Move.sent (h : Move p q) (hk : Handshake p) (hs : p.tracker.emitStopSent = true) :
    q.tracker.emitStopSent = true := by
  cases h.judged hk with
  | calm hc => exact hc.sent.trans hs
  | @polled _ r t hr _ hq => exact hq.sent.trans ((poll_result r t).sent (hr.sent.trans hs))
  | checked => exact sent_afterCheckPoll.trans ((poll_result p _).sent hs)
  | @injected n k v hm =>
    rw [(hk.check n k hm).2.1] at hs
    cases hs
  | stalledOut => exact hs

/-- Nobody announces the end of the work to a closed pipeline. -/
theorem Move.announces (h : Move p q) (hx : Sections p) (hc : p.closed = true)
    (hm : (n, s) ∈ q.calls) (hs : s.announces = true) :
    ∃ u, (n, u) ∈ p.calls ∧ u.announces = true := by
  rcases h.origin hx hm with ⟨u, hu, hcall⟩ | ⟨hold, -⟩ | ⟨r, hi, rfl⟩
  · cases ha : u.announces with
    | true => exact ⟨u, hu, ha⟩
    | false =>
      have hother : ∀ v, (n, v) ∈ p.calls → v.announces = false := fun v hv => by
        rw [← hx.unique hu hv]
        exact ha
      exact ⟨s, ((hcall.unspoken ha hother).calls n s hs).mp hm, hs⟩
  · exact ⟨s, hold, hs⟩
  · cases hi with
    | finish _ hopen => cases hc.symm.trans hopen
    | finishEarly | finishLate | finishAgain => exact absurd hm not_mem_reply
    | _ => cases hs

/-- No stop signal is sent to a fetch worker while no announcement is pending. -/
theorem Move.fetchStops (h : Move p q) (ho : ∀ n s, (n, s) ∈ p.calls → s.announces = false) :
    q.history.fetchStops = p.history.fetchStops := by
  cases h with
  | @invoke n r q hn hi =>
    have ha : History.Adds (fun e => e.enqueued = []) p.history q.history :=
      hi.adds rfl fun _ => rfl
    rw [History.fetchStops, ha.log fun _ he => he, ← History.fetchStops]
  | cancel => simp [History.fetchStops, record, release]
  | close => exact (Unspoken.of_kept (.close p)).fetchStops
  | drop => exact (Unspoken.of_kept (.drop p)).fetchStops
  | tick => rfl
  | @call n s q hm hcall => exact (hcall.unspoken (ho n s hm) (ho n)).fetchStops
  | fetcher hw hf => exact (Unspoken.of_kept hf.callsKept).fetchStops
  | emitter hw he => exact (Unspoken.of_kept he.callsKept).fetchStops

/-- In a closed pipeline in which a stop signal is at hand, all workers have been asked to abort. -/
theorem Reaches.isAsked_of_signalled (h : p₀.Reaches p) (hb : build settings origin = .built p₀)
    (hc : p.closed = true) (hs : p.started = true) (hsig : p.Signalled) (ht : p.isLaunched t) :
    p.isAsked t := by
  have hwatched := h.watched hb
  have hannounced := h.announced hb
  have hclaimed : p.stopsClaimed = true := by
    rcases hsig with hm | ⟨n, s, hm, ha⟩
    · have hqueued : .stop ∈ p.history.log Event.enqueued := by
        rw [(h.balanced hb).intake]
        exact List.mem_append_right _ hm
      generalize p.history.announcement = a at hannounced
      cases hannounced with
      | unmade _ hz => exact absurd hqueued (List.count_eq_zero.mp hz)
      | pending hc | returned hc | abandoned hc => exact hc
    · exact (hannounced.of_announces (h.sections hb) hm ha).2.1
  exact isAsked_of_flags (hwatched.asked hs hc (hwatched.claimed hclaimed).2) ht

namespace Closing

variable {r : Pipeline} {a : Action} {past : History}

/-- A fetch worker that has finished did so before the pipeline was closed, or a signal was at
hand. -/
theorem finished (h : Closing p r) (hp : p₀.Reaches p) (hr : p₀.Reaches r)
    (hb : build settings origin = .built p₀)
    (hm : (.fetcher i, .finished) ∈ r.history.log Event.exit) :
    (.fetcher i, .finished) ∈ p.history.log Event.exit ∨ p.Signalled := by
  by_cases hsig : p.Signalled
  · exact .inr hsig
  · -- no signal was left, and none has been sent since, so nobody else has taken one
    have hleft : p.intake.messages.count .stop = 0 :=
      List.count_eq_zero.mpr fun hm => hsig (.inl hm)
    have hbefore := hp.fetchStops_split hb
    have hafter := hr.fetchStops_split hb
    have hstops := h.stops hsig
    have hprefix : p.history.finishersOf .fetch <+: r.history.finishersOf .fetch :=
      (History.log_prefix_of_suffix Event.exit h.suffix).filterMap _
    have hsame := hprefix.eq_of_length_le (by omega)
    have hfinisher : Task.fetcher i ∈ r.history.finishersOf .fetch := mem_finishers.mpr ⟨hm, rfl⟩
    rw [← hsame] at hfinisher
    exact .inl (mem_finishers.mp hfinisher).1

/-- As long as no worker fails, a poll latches nothing. -/
theorem polled {b : Pipeline} (ht : Tracked r)
    (he : ∀ t e, (t, e) ∈ r.history.log Event.exit → e.isFailure = false)
    (hb : b.tracker = r.tracker) :
    History.Adds (fun e => p.MayRecord e past) b.history (b.poll t).1.history := by
  have hv := poll_result b t
  generalize b.poll t = v at hv
  have collected {c : Pipeline} (hc : Collects b c) :
      History.Adds (fun e => p.MayRecord e past) b.history c.history :=
    hc.history.mono fun e ⟨t, d, he⟩ => mayRecord_of_ne (by simp [he])
  cases hv with
  | notStarted | latched => exact .refl _
  | failed _ _ hc =>
    obtain ⟨c, t, e, -, hm, hfe, -⟩ := collectFrom_failed hc
    have hexit : (t, e) ∈ r.history.log Event.exit := by
      rw [ht.exits, ← hb]
      exact List.mem_append_right _ hm
    rw [failureOf?_eq_none_iff.mpr (he t e hexit)] at hfe
    cases hfe
  | injecting _ _ hc =>
    exact (collected (collects_of_collect hc)).trans (.one (mayRecord_of_ne (by simp)))
  | noEmitters _ _ hc | active _ _ hc =>
    have hadds := collected (collects_of_collect hc)
    exact hadds

theorem answered {v : Pipeline × Verdict}
    (hv : History.Adds (fun e => p.MayRecord e past) r.history v.1.history) :
    History.Adds (fun e => p.MayRecord e past) r.history (afterCheckPoll n v).history := by
  obtain ⟨b, v⟩ := v
  cases v with
  | failed | active => exact hv.trans (.one (mayRecord_of_ne (by simp)))
  | injecting => exact hv

/-- A check that injects may stall: all fetch workers have finished, and the emit workers had not
been told to stop when the pipeline was closed. -/
theorem mayStall_injecting {k : Injection} (h : Closing p r) (hp : p₀.Reaches p)
    (hr : p₀.Reaches r) (hb : build settings origin = .built p₀) (hset : r.settings = p.settings)
    (hc : p.closed = true) (hs : p.started = true) (hm : (n, .checkInjecting k) ∈ r.calls) :
    p.MayStall (.stalled Cargo.emitStop.label r.ceiling) r.history := by
  obtain ⟨-, hunsent, -, hin⟩ := (hr.handshake hb).check n k hm
  have hexit : p.settings.FetchersIn (r.history.log Event.exit) := fun i hi =>
    (hr.tracked hb).mem_exit_of_collection (hin i (hset ▸ hi))
  refine .inr ⟨by rw [ceiling, hset, ceiling], ?_, hexit, fun i hi => ?_⟩
  · by_contra hsent
    cases hunsent.symm.trans (h.sent (by simpa using hsent))
  · have hlaunched : i < p.fetchers.length := by
      rwa [((hp.staffed hb).full hs).1]
    exact (h.finished hp hr hb (hexit i hi)).imp_right fun hsig =>
      ⟨hsig, hp.isAsked_of_signalled hb hc hs hsig hlaunched⟩

/-- Only the stalls that the closed pipeline may come to are latched. -/
theorem latched_move (h : Closing p r) (hp : p₀.Reaches p) (hr : p₀.Reaches r)
    (hb : build settings origin = .built p₀) (hset : r.settings = p.settings) (hc : p.closed = true)
    (hs : p.started = true) (hm : Move r q)
    (he : ∀ t e, (t, e) ∈ r.history.log Event.exit → e.isFailure = false) :
    History.Adds (fun e => p.MayRecord e r.history) r.history q.history := by
  have calm {a b : Pipeline} (hc : Calm a b) :
      History.Adds (fun e => p.MayRecord e r.history) a.history b.history :=
    hc.history.mono fun e he => mayRecord_of_ne fun f hf => by subst hf; cases he
  have ht := hr.tracked hb
  cases hm.judged (hr.handshake hb) with
  | calm hc => exact calm hc
  | polled ha heq hq => exact (calm ha).trans ((polled ht he heq).trans (calm hq))
  | checked => exact answered (polled ht he rfl)
  | @injected n k v hcall hi =>
    refine answered ?_
    cases hi with
    | last => exact .one (mayRecord_of_ne (by simp))
    | next => exact .trans (.one (mayRecord_of_ne (by simp))) (.one (mayRecord_of_ne (by simp)))
    | stalled _ _ hq hf =>
      subst hq hf
      refine .trans (.one (x := ⟨r.now, .handoffStalled (.call n) .emitStop⟩)
        (mayRecord_of_ne (by simp))) (.one fun f hf => ?_)
      obtain rfl := Event.latched.inj hf
      exact h.mayStall_injecting hp hr hb hset hc hs hcall
  | @stalledOut n hcall =>
    refine .trans (.one fun f hf => ?_) (.one (mayRecord_of_ne (by simp)))
    obtain rfl := Event.latched.inj hf
    obtain ⟨u, hu, ha⟩ := h.calls n _ hcall rfl
    exact .inl ⟨by rw [ceiling, hset]; rfl, n, u, hu, ha⟩

theorem move (h : Closing p r) (hp : p₀.Reaches p) (hr : p₀.Reaches r)
    (hb : build settings origin = .built p₀) (hset : r.settings = p.settings)
    (hc : p.closed = true) (hs : p.started = true) (hstep : r.step a = some q)
    (he : ∀ t e, (t, e) ∈ r.history.log Event.exit → e.isFailure = false) : Closing p q := by
  have hm := step_move hstep
  constructor
  · exact hm.closed h.closed
  · rw [← ((hr.step hstep).watched hb).opened]
    exact History.opened_of_suffix hm.suffix ((hr.watched hb).opened.trans h.started)
  · intro n s hs ha
    obtain ⟨u, hu, hua⟩ := hm.announces (hr.sections hb) h.closed hs ha
    exact h.calls n u hu hua
  · exact h.suffix.trans hm.suffix
  · intro hsig
    refine (hm.fetchStops fun n s hs => ?_).trans (h.stops hsig)
    by_contra ha
    obtain ⟨u, hu⟩ := h.calls n s hs (by simpa using ha)
    exact hsig (.inr ⟨n, u, hu⟩)
  · exact fun hsent => hm.sent (hr.handshake hb) (h.sent hsent)
  · exact (h.latched_move hp hr hb hset hc hs hm he).each_between
      (fun e past hrec hpast _ _ f hf => (hrec f hf).of_suffix hpast) h.latched

end Closing

theorem Reaches.closing (h : p₀.Reaches p) (hb : build settings origin = .built p₀)
    (hc : p.closed = true) (hs : p.started = true) (hr : p.Reaches q)
    (he : ∀ t e, (t, e) ∈ q.history.log Event.exit → e.isFailure = false) : Closing p q := by
  obtain ⟨as, has⟩ := hr
  refine run_induction (I := fun _ r =>
    (∀ t e, (t, e) ∈ r.history.log Event.exit → e.isFailure = false) → Closing p r) has
    (fun _ => ?_) (fun as a r s hr ih hstep he => ?_) he
  · exact ⟨hc, hs, fun n s hm ha => ⟨s, hm, ha⟩, List.suffix_rfl, fun _ => rfl, id,
      .of_forall fun x past hx hp => absurd (hx.trans hp).length_le (by simp)⟩
  · -- what holds of the ends of all workers held of the ends so far
    have hbefore : ∀ t e, (t, e) ∈ r.history.log Event.exit → e.isFailure = false :=
      fun t e hm => he t e
        ((History.log_prefix_of_suffix _ (step_move hstep).suffix).subset hm)
    exact (ih hbefore).move h (h.trans ⟨as, hr⟩) hb (Reaches.settings ⟨as, hr⟩) hc hs hstep hbefore

/-- What the checks of a closed pipeline are told when no worker fails. They are told of an error
only if an announcement was pending when the pipeline was closed, or if the emit workers had still
to be told to stop and all fetch workers have finished, some of them perhaps after the close with a
signal that was at hand. That announcement, or a check with such a signal, has stalled meanwhile.
Otherwise they are told whether a worker is running. -/
theorem Reaches.closed_checks (h : p₀.Reaches p) (hb : build settings origin = .built p₀)
    (hc : p.closed = true) (hs : p.started = true) (hf : p.tracker.failure = none)
    (hr : p.Reaches q)
    (he : ∀ t e, (t, e) ∈ q.history.log Event.exit → e.isFailure = false) :
    ∀ (later between : History) time n r,
      q.history = later ++ ⟨time, .replied n (.active r)⟩ :: (between ++ p.history) →
        (r = .ok false ∧
          ∀ t ∈ q.allWorkers, ∃ e, (t, e) ∈ (between ++ p.history).log Event.exit) ∨
        (r = .ok true ∧
          ∃ t ∈ q.allWorkers, ∀ e, (t, e) ∉ ((between ++ p.history).beforeCall n).log Event.exit) ∨
        ∃ f, r = .error f.error ∧ ∃ (after : History) (x : Entry) (before : History),
          between = after ++ x :: before ∧ x.event = .latched f ∧
            p.MayStall f (before ++ p.history) := by
  intro later between time n r hh
  have hreached := h.trans hr
  have hsuffix : ⟨time, .replied n (.active r)⟩ :: (between ++ p.history) <:+ q.history :=
    ⟨later, hh.symm⟩
  have hreported := (hreached.reporting hb).reported.of_suffix hsuffix
  have hvouched := (hreached.concluding hb).vouched.of_suffix hsuffix
  cases r with
  | ok b =>
    cases b with
    | true => exact .inr (.inl ⟨rfl, hreported⟩)
    | false =>
      refine .inl ⟨rfl, fun t ht => ?_⟩
      obtain ⟨e, he, -⟩ := hvouched t ht
      exact ⟨e, he⟩
  | error e =>
    refine .inr (.inr ?_)
    rcases hreported with ⟨-, hunopened⟩ | ⟨f, hlatched, rfl⟩
    · have hopened := History.opened_of_suffix (List.suffix_append between p.history)
        ((h.watched hb).opened.trans hs)
      cases hunopened.symm.trans hopened
    · -- nothing was latched before, so the failure belongs to the events since
      obtain ⟨after, x, before, rfl, hx⟩ :=
        History.latched_of_failure? hlatched ((h.latching hb).kept.trans hf)
      refine ⟨f, rfl, after, x, before, rfl, hx, ?_⟩
      have hpast : x :: (before ++ p.history) <:+ q.history :=
        (List.suffix_cons_iff.mpr (.inr ⟨after, by simp⟩)).trans hsuffix
      exact (h.closing hb hc hs hr he).latched.of_suffix hpast (List.suffix_append _ _) f hx

/-- The pipeline is closed while its fetch worker has an item and the queue is full. An
announcement waits for its first slot. -/
def closedInMidst : List Action :=
  .invoke 0 .start :: List.replicate 4 (.proceed (.call 0)) ++
    [.proceed (.fetcher 0), .clientReturns 0 (.value ()), .proceed (.fetcher 0),
      .invoke 1 (.offer default .endless), .proceed (.call 1), .proceed (.call 1),
      .proceed (.call 1), .proceed (.fetcher 0),
      .invoke 2 (.offer default .endless), .proceed (.call 2), .proceed (.call 2),
      .proceed (.call 2), .invoke 3 .finish, .proceed (.call 3), .close]

/-- One check is made before the workers have aborted, one after. -/
def checkedTwice : List Action :=
  [.invoke 4 .checkActive, .proceed (.call 4), .abort (.fetcher 0), .abort (.emitter 0),
    .invoke 5 .checkActive, .proceed (.call 5)]

/-- The announcement stalls, and then another check is made. -/
def checkedAgain : List Action :=
  checkedTwice ++ [.tick 3000, .proceed (.call 3), .proceed (.call 3), .invoke 6 .checkActive,
    .proceed (.call 6)]

theorem closedInMidst_checks :
    ∃ p₀ p q, build tight default = .built p₀ ∧ p₀.run closedInMidst = some p ∧
      p.run checkedTwice = some q ∧ p.closed = true ∧ p.started = true ∧
      p.tracker.failure = none ∧ (q.history.log Event.exit).length = 2 ∧
      ∀ (later between : History) time n r,
        q.history = later ++ ⟨time, .replied n (.active r)⟩ :: (between ++ p.history) →
          (r = .ok false ∧
            ∀ t ∈ q.allWorkers, ∃ e, (t, e) ∈ (between ++ p.history).log Event.exit) ∨
          (r = .ok true ∧ ∃ t ∈ q.allWorkers,
            ∀ e, (t, e) ∉ ((between ++ p.history).beforeCall n).log Event.exit) ∨
          ∃ f, r = .error f.error ∧ ∃ (after : History) (x : Entry) (before : History),
            between = after ++ x :: before ∧ x.event = .latched f ∧
              p.MayStall f (before ++ p.history) := by
  refine ⟨_, _, _, rfl, rfl, rfl, rfl, rfl, rfl, rfl, ?_⟩
  refine Reaches.closed_checks ⟨closedInMidst, rfl⟩ (show build tight default = _ from rfl) rfl rfl
    rfl ⟨checkedTwice, rfl⟩ fun t e hm => ?_
  have hall : ∀ x ∈ [(Task.fetcher 0, Ending.aborted), (.emitter 0, .aborted)],
      x.2.isFailure = false := by decide
  exact hall (t, e) hm

/-- No failure is latched when the pipeline is closed and no worker fails. A check has already said
that all workers are gone, and the next one is told of a stall. -/
theorem closedInMidst_stalled :
    ∃ p₀ p q, build tight default = .built p₀ ∧ p₀.run closedInMidst = some p ∧
      p.run checkedAgain = some q ∧ p.closed = true ∧ p.started = true ∧
      p.tracker.failure = none ∧
      q.history.log Event.exit = [(.fetcher 0, .aborted), (.emitter 0, .aborted)] ∧
      ∃ (later between : History) (time time' : Nat),
        q.history = ⟨time', .replied 6 (.active (.error (.stalled Cargo.fetchStop.label 3000)))⟩ ::
          (later ++ ⟨time, .replied 5 (.active (.ok false))⟩ :: (between ++ p.history)) := by
  refine ⟨_, _, _, rfl, rfl, rfl, rfl, rfl, rfl, rfl, ?_⟩
  exact ⟨[_, _, _, _], [_, _, _, _, _, _, _, _], _, _, rfl⟩

end Pipeline

end DocumentPipeline
