import DocumentPipeline.Proofs.Causes
import DocumentPipeline.Proofs.LockLines
import DocumentPipeline.Proofs.Signals

/-! # Who waits in a completion poll

Fetch workers, offers and checks run the same poll under the tracker's lock, and the poll waits
only when it comes to hand over the stop signals of the emit pool. Only a check ever comes to
that: a fetch worker that polls has not finished, and an offer that polls has been let in before
the first stop signal. A fetch worker that gets the lock also finds the pipeline open, since
whoever launches the workers keeps the lock until then.
-/
namespace DocumentPipeline

/-- Whether the event begins to hand over a stop signal to the emit pool. -/
@[simp] def Event.injects : Event → Bool
  | handoffBegan _ .emitStop => true
  | _ => false

/-- A stop signal is handed over to the emit pool on behalf of a check. -/
def InjectsForCheck : Event → History → Prop
  | .handoffBegan t .emitStop, past => ∃ n, t = .call n ∧ past.requestOf n = some .checkActive
  | _, _ => True

/-- The poll has come to its end without waiting, in a pipeline that is open. -/
def Verdict.IsPrompt : Verdict → Prop
  | failed e => ∃ f : Failure, e = f.error
  | active _ => True
  | injecting _ => False

theorem injectsForCheck_of_not_injects {e : Event} {past : History} (h : e.injects = false) :
    InjectsForCheck e past := by
  cases e with
  | handoffBegan t cargo => cases cargo <;> simp_all [InjectsForCheck]
  | _ => trivial

theorem Failure.error_ne_notInitialized (f : Failure) : f.error ≠ .notInitialized := by
  cases f <;> simp [Failure.error]

/-- A step from a stage without a poll hands no stop signal to the emit pool. -/
theorem CallStage.not_injects_of_records {s : CallStage} {n : Nat} {e : Event}
    (hs : s.supplies .emit = false) (h : s.records n e) : e.injects = false := by
  cases s <;> simp_all <;> grind [Event.injects]

namespace Pipeline

variable {p q p₀ : Pipeline} {t : Task} {n i : Nat} {s : CallStage} {w : Fetcher}
  {settings : Settings} {origin : Instant}

section Polls

/-- A poll that begins to hand over a stop signal waits with it. -/
theorem PollResult.injects {v : Pipeline × Verdict} (h : PollResult p t v) :
    History.Adds (fun e => e.injects = true →
      e = .handoffBegan t .emitStop ∧ ∃ k, v.2 = .injecting k) p.history v.1.history := by
  have collects {r : Pipeline} (hc : Collects p r) : History.Adds (fun e => e.injects = true →
      e = .handoffBegan t .emitStop ∧ ∃ k, v.2 = .injecting k) p.history r.history := by
    refine hc.history.mono ?_
    rintro _ ⟨u, ending, rfl⟩ hi
    cases hi
  cases h with
  | notStarted | latched => exact .refl _
  | failed _ _ hc =>
    obtain ⟨r, hr, rfl⟩ := collects_of_collect_failed hc
    exact (collects hr).trans (.one nofun)
  | injecting _ _ hc =>
    exact (collects (collects_of_collect hc)).trans (.one fun _ => ⟨rfl, _, rfl⟩)
  | @noEmitters r _ _ hc | @active r _ _ hc => exact collects (r := r) (collects_of_collect hc)

theorem Injected.injects {k : Injection} {v : Pipeline × Verdict} (h : Injected p t k v) :
    History.Adds (fun e => e.injects = true → e = .handoffBegan t .emitStop) p.history
      v.1.history := by
  have pushed : History.Adds (fun e => e.injects = true → e = .handoffBegan t .emitStop) p.history
      ({ p with outtake := p.outtake.push t .stop }.record (.stopQueued .emit)).history :=
    .one nofun
  cases h with
  | last => exact pushed
  | next => exact pushed.trans (.one fun _ => rfl)
  | stalled _ _ hq =>
    subst hq
    exact .trans (.one (x := ⟨p.now, .handoffStalled t .emitStop⟩) nofun)
      (.one nofun)

/-- A poll that does not wait hands over nothing. -/
theorem PollResult.not_injects {v : Pipeline × Verdict} (h : PollResult p t v)
    (hv : ∀ k, v.2 ≠ .injecting k) :
    History.Adds (fun e => e.injects = false) p.history v.1.history := by
  refine h.injects.mono fun e he => ?_
  cases hi : e.injects with
  | false => rfl
  | true =>
    obtain ⟨-, k, hk⟩ := he hi
    exact absurd hk (hv k)

/-- A fetch worker that polls hands over nothing, or is left waiting with a stop signal. -/
theorem injects_tryPoll {u : FetchStage} (hu : p.fetchStage? i = some u) :
    History.Adds (fun e => e.injects = false) p.history (p.tryPoll i w).history ∨
      ∃ k, (p.tryPoll i w).fetchStage? i = some (.injecting k) := by
  unfold tryPoll
  dsimp only
  split
  · have hpoll := poll_result (p.requestTracker (.fetcher i)) (.fetcher i)
    have hstage := (Polled.poll (p.requestTracker (.fetcher i)) (.fetcher i)).fetchStage i
    generalize (p.requestTracker (.fetcher i)).poll (.fetcher i) = v at hpoll hstage ⊢
    obtain ⟨r, v⟩ := v
    cases v with
    | failed e => exact .inl ((hpoll.not_injects nofun).trans (adds_endFetcher rfl rfl))
    | active b => exact .inl (hpoll.not_injects nofun)
    | injecting k => exact .inr ⟨k, fetchStage?_of_setFetcher (hstage.trans hu) rfl⟩
  · exact .inl (.refl _)

theorem not_injects_endFetcher {e : Ending} :
    History.Adds (fun e => e.injects = false) p.history (p.endFetcher i w e).history :=
  adds_endFetcher rfl rfl

theorem injects_finishItem {item : WorkItem} {o : Outcome} {since : Nat} {u : FetchStage}
    (hu : p.fetchStage? i = some u) :
    History.Adds (fun e => e.injects = false) p.history (p.finishItem i w item o since).history ∨
      ∃ k, (p.finishItem i w item o since).fetchStage? i = some (.injecting k) := by
  have hreported : History.Adds (fun e => e.injects = false) p.history
      (p.record (.reported i item o (p.now - since))).history := .one rfl
  exact (injects_tryPoll (p := { p.record (.reported i item o (p.now - since)) with
    totalProcessed := p.totalProcessed + 1 }) hu).imp_left hreported.trans

end Polls

/-- A fetch worker hands over no stop signal with its step, or is left waiting with one. -/
theorem FetcherMove.injects (h : FetcherMove p i w q) (hw : p.fetchers[i]? = some w)
    (hn : ∀ k, w.stage ≠ .injecting k) :
    History.Adds (fun e => e.injects = false) p.history q.history ∨
      ∃ k, q.fetchStage? i = some (.injecting k) := by
  have hs : p.fetchStage? i = some w.stage := by simp [fetchStage?, hw]
  cases h with
  | abort | notCreated => exact .inl not_injects_endFetcher
  | create | acquire => exact .inl (.refl _)
  | created => exact .inl (.one rfl)
  | @receiveStop d ms =>
    have hpast : History.Adds (fun e => e.injects = false) p.history
        (p.record (.received i .stop)).history := .one rfl
    exact .inl (hpast.trans not_injects_endFetcher)
  | receiveItem | handOver => exact .inl (.trans (.one rfl) (.one rfl))
  | idle => exact injects_tryPoll (p := { p with intakeLock := _ }) hs
  | @settle item since r outcome =>
    have hpast : History.Adds (fun e => e.injects = false) p.history
        (p.record (.processEnded i item r)).history := .one rfl
    exact (injects_finishItem (p := p.record (.processEnded i item r)) hs).imp_left hpast.trans
  | @lose item since r ending =>
    have hpast : History.Adds (fun e => e.injects = false) p.history
        (p.record (.processEnded i item r)).history := .one rfl
    exact .inl (hpast.trans not_injects_endFetcher)
  | @handed item payload since d =>
    have hpast : History.Adds (fun e => e.injects = false) p.history
        ({ p with outtake := p.outtake.push (.fetcher i) (.data payload) }.record
          (.payloadQueued i payload)).history := .one rfl
    exact (injects_finishItem (p := { p with
      outtake := p.outtake.push (.fetcher i) (.data payload) }.record
        (.payloadQueued i payload)) hs).imp_left hpast.trans
  | stalled =>
    have hpast : History.Adds (fun e => e.injects = false) p.history
        ({ p with outtake := p.outtake.leave (.fetcher i) }.record
          (.handoffStalled (.fetcher i) .emitData)).history := .one rfl
    exact .inl (hpast.trans not_injects_endFetcher)
  | injected hst => exact absurd hst (hn _)

theorem adds_afterCheckPoll {P : Event → Prop} {v : Pipeline × Verdict}
    (hv : History.Adds P p.history v.1.history) (hr : ∀ r, P (.replied n (.active r))) :
    History.Adds P p.history (afterCheckPoll n v).history := by
  obtain ⟨r, v⟩ := v
  cases v with
  | failed | active => exact adds_reply hv (hr _)
  | injecting => exact hv

theorem adds_afterOfferPoll {P : Event → Prop} {item : WorkItem} {wait : Wait}
    {v : Pipeline × Verdict} (hv : History.Adds P p.history v.1.history)
    (hr : ∀ e, P (.replied n (.offered (.error e)))) :
    History.Adds P p.history (afterOfferPoll n item wait v).history := by
  obtain ⟨r, v⟩ := v
  cases v with
  | failed e => exact adds_reply hv (hr e)
  | active | injecting => exact hv

/-- What a check hands over with its step, it hands over itself. -/
theorem CallMove.injects (h : CallMove p n s q) (hs : s.serves .checkActive) :
    History.Adds (fun e => e.injects = true → e = .handoffBegan (.call n) .emitStop)
      p.history q.history := by
  cases h with
  | checked =>
    exact adds_afterCheckPoll ((poll_result p (.call n)).injects.mono fun e he hi => (he hi).1)
      nofun
  | checkInjected hi => exact adds_afterCheckPoll (inject?_injected hi).injects nofun
  | batchAdmitted hl | batchExpired hl | batchPaused hl => cases hl <;> simp at hs
  | _ => simp at hs

theorem CallStage.not_invoked_of_records {e : Event} (h : s.records n e) :
    ∀ m r, e ≠ .invoked m r := by
  rintro m r rfl
  cases s <;> simp_all

/-- The hand-over of a stop signal to the emit pool comes on top of the request for a check. -/
theorem CallMove.injectsForCheck (h : CallMove p n s q) (hs : s.serves .checkActive)
    (hr : p.history.requestOf n = some .checkActive)
    (he : History.Each InjectsForCheck p.history) : History.Each InjectsForCheck q.history := by
  have hcalled := h.records.mono fun e => CallStage.not_invoked_of_records
  refine ((h.injects hs).and hcalled).each_between (fun e g hP hpg hgq => ?_) he
  cases hi : e.injects with
  | false => exact injectsForCheck_of_not_injects hi
  | true =>
    rw [hP.1 hi]
    exact ⟨n, rfl, ((hcalled.split hpg hgq).1.requestOf_eq).trans hr⟩

section Runs

/-- An offer that is about to poll does not wait in its poll. -/
theorem Reaches.offer_poll {item : WorkItem} {wait : Wait} (h : p₀.Reaches p)
    (hb : build settings origin = .built p₀) (hm : (n, .offerPolling item wait) ∈ p.calls) :
    ∀ k, (p.poll (.call n)).2 ≠ .injecting k := by
  intro k hk
  have hpoll := poll_result p (.call n)
  have heq : p.poll (.call n) = ((p.poll (.call n)).1, .injecting k) := Prod.ext rfl hk
  rw [heq] at hpoll
  exact not_injecting_of_offer h hb hm rfl hpoll

/-- A fetch worker that has not ended and gets the tracker's lock does not wait in its poll, and
the pipeline is open. -/
theorem Reaches.fetcher_poll (h : p₀.Reaches p) (hb : build settings origin = .built p₀)
    (hw : p.fetchers[i]? = some w) (hs : w.stage ≠ .exited)
    (hf : p.trackerLock.isFree = true) :
    ((p.requestTracker (.fetcher i)).poll (.fetcher i)).2.IsPrompt := by
  have hopen := h.started_of_free hb hw hf
  have hst : (p.requestTracker (.fetcher i)).fetchStage? i = some w.stage :=
    (congrArg (Option.map _) hw : p.fetchStage? i = _)
  have htracked : Tracked (p.requestTracker (.fetcher i)) :=
    (h.tracked hb).call_of_steady (n := 0) (.quiet (.refl p) rfl)
  have hpoll := poll_result (p.requestTracker (.fetcher i)) (.fetcher i)
  generalize (p.requestTracker (.fetcher i)).poll (.fetcher i) = v at hpoll
  obtain ⟨q, v⟩ := v
  cases v with
  | injecting k =>
    exact not_injecting_of_fetcher htracked (h.staffed hb).requestTracker hst hs hpoll
  | active b => trivial
  | failed e =>
    generalize hv : (q, Verdict.failed e) = v at hpoll
    cases hpoll with
    | notStarted hno => exact absurd hopen (by simpa [requestTracker] using hno)
    | latched | failed => cases hv; exact ⟨_, rfl⟩
    | injecting | noEmitters | active => cases hv

/-- Every step but that of a check hands no stop signal to the emit pool. -/
theorem Move.injectsForCheck (hm : Move p q) (hr : p₀.Reaches p) (hq : p₀.Reaches q)
    (hb : build settings origin = .built p₀) (he : History.Each InjectsForCheck p.history) :
    History.Each InjectsForCheck q.history := by
  have quiet (ha : History.Adds (fun e => e.injects = false) p.history q.history) :
      History.Each InjectsForCheck q.history :=
    ha.each (fun e _ => injectsForCheck_of_not_injects) he
  cases hm with
  | invoke hn hi => exact quiet (hi.adds rfl fun _ => rfl)
  | cancel => exact quiet (.one rfl)
  | close =>
    refine quiet ?_
    unfold Pipeline.close
    split <;> exact .one rfl
  | drop => exact quiet (.one rfl)
  | tick => exact quiet (.refl _)
  | @call n s q hm hc =>
    obtain ⟨r, hreq, hserves⟩ := (hr.sections hb).request n s hm
    cases s with
    | checking | checkInjecting =>
      obtain rfl : r = .checkActive := hserves
      exact hc.injectsForCheck rfl hreq he
    | offerPolling item wait =>
      cases hc with
      | batchAdmitted hl | batchExpired hl | batchPaused hl => cases hl
      | offerPolled held =>
        have hno : ∀ k, (p.poll (.call n)).2 ≠ .injecting k := hr.offer_poll hb hm
        exact quiet (adds_afterOfferPoll ((poll_result p (.call n)).not_injects hno) fun _ => rfl)
    | offerInjecting item wait k => exact absurd hm ((hr.handshake hb).offer n item wait k)
    | _ => exact quiet (hc.records.mono fun e => CallStage.not_injects_of_records rfl)
  | @fetcher i w q hw hf =>
    have hn : ∀ k, w.stage ≠ .injecting k := fun k hk =>
      (hr.handshake hb).fetcher i k (by simp [fetchStage?, hw, hk])
    rcases hf.injects hw hn with ha | ⟨k, hk⟩
    · exact quiet ha
    · exact absurd hk ((hq.handshake hb).fetcher i k)
  | emitter hw hm =>
    refine quiet (hm.records.mono fun e hw => ?_)
    cases e <;> simp_all

theorem Reaches.injectsForCheck (h : p₀.Reaches p) (hb : build settings origin = .built p₀) :
    History.Each InjectsForCheck p.history := by
  obtain ⟨as, has⟩ := h
  refine run_induction (I := fun _ p => History.Each InjectsForCheck p.history) has ?_
    fun as a r s hr ih hs =>
      (step_move hs).injectsForCheck ⟨as, hr⟩ (Reaches.step ⟨as, hr⟩ hs) hb ih
  obtain ⟨-, -, rfl⟩ := build_eq_built hb
  trivial

/-- No worker ends because its poll found the pipeline not open. -/
theorem Reaches.opened_of_exit (h : p₀.Reaches p) (hb : build settings origin = .built p₀) :
    ∀ x ∈ p.history.log Event.exit, x.2 ≠ .failed .notInitialized := by
  obtain ⟨as, has⟩ := h
  refine run_induction
    (I := fun _ p => ∀ x ∈ p.history.log Event.exit, x.2 ≠ .failed .notInitialized) has ?_
    fun as a r s hr ih hs x hx => ?_
  · obtain ⟨-, -, rfl⟩ := build_eq_built hb
    simp
  · obtain ⟨u, signalled, busy, hended, -⟩ := Reaches.step_ended ⟨as, hr⟩ hb hs
    rcases hended x hx with hx | ⟨-, hby⟩
    · exact ih x hx
    · intro he
      rw [he] at hby
      generalize hf : Ending.failed .notInitialized = e at hby
      cases hby with
      | finished | aborted | stalled => cases hf
      | collaborator he => subst hf; cases he
      | told => exact Failure.error_ne_notInitialized _ (Ending.failed.inj hf).symm

/-- The poll of a fetch worker that has got the tracker's lock comes to its end without waiting,
and the pipeline is open. -/
theorem Reaches.tryPoll_prompt {r : Pipeline} (h : p₀.Reaches (r.tryPoll i w))
    (hb : build settings origin = .built p₀) (hf : r.trackerLock.isFree = true) :
    ((r.requestTracker (.fetcher i)).poll (.fetcher i)).2.IsPrompt := by
  have heach := h.injectsForCheck hb
  have hexits := h.opened_of_exit hb
  have hpoll := poll_result (r.requestTracker (.fetcher i)) (.fetcher i)
  unfold tryPoll at heach hexits
  simp only [hf, if_true] at heach hexits
  generalize (r.requestTracker (.fetcher i)).poll (.fetcher i) = v at hpoll heach hexits ⊢
  cases hpoll with
  | notStarted =>
    refine absurd rfl (hexits (.fetcher i, .failed .notInitialized) ?_)
    rw [afterFetcherPoll, exits_endFetcher]
    simp
  | latched | failed => exact ⟨_, rfl⟩
  | injecting =>
    obtain ⟨n, hn, -⟩ := heach.1
    cases hn
  | noEmitters | active => trivial

/-- How the parties stand to the completion polls. -/
structure Polling (p : Pipeline) : Prop where
  /-- A fetch worker that would poll now and got the tracker's lock would not wait in its poll, and
  would find the pipeline open. -/
  fetcher : ∀ i w, p.fetchers[i]? = some w → w.stage ≠ .exited → p.trackerLock.isFree = true →
    ((p.requestTracker (.fetcher i)).poll (.fetcher i)).2.IsPrompt
  /-- A fetch worker whose poll has led here and had got the tracker's lock did not wait in it,
  and found the pipeline open. -/
  polled : ∀ (r : Pipeline) (i : Nat) (w : Fetcher), p = r.tryPoll i w → r.trackerLock.isFree = true →
    ((r.requestTracker (.fetcher i)).poll (.fetcher i)).2.IsPrompt
  /-- An offer that is about to poll will not wait in its poll. -/
  offer : ∀ n item wait, (n, .offerPolling item wait) ∈ p.calls →
    ∀ k, (p.poll (.call n)).2 ≠ .injecting k
  /-- Between two steps no fetch worker has the tracker's lock or waits for it, and an offer in
  the line has its poll before it. -/
  line : ∀ t ∈ p.trackerLock.line, ∃ n s, t = .call n ∧ (n, s) ∈ p.calls ∧
    ∀ item wait, p.history.requestOf n = some (.offer item wait) → ∃ w, s = .offerPolling item w
  /-- Whoever waits in a poll is a check. -/
  waiting : ∀ n s, (n, s) ∈ p.calls → s.isInjecting = true →
    p.history.requestOf n = some .checkActive
  /-- Every stop signal for the emit pool has been handed over by a check. -/
  injected : History.Each InjectsForCheck p.history
  /-- No fetch worker was told that the pipeline is not open. -/
  ended : ∀ i, (.fetcher i, .failed .notInitialized) ∉ p.history.log Event.exit

/-- In every state that can be reached, whatever is launched, announced, closed and polled
meanwhile, only checks wait in completion polls. -/
theorem Reaches.only_checks_wait (h : p₀.Reaches p) (hb : build settings origin = .built p₀) :
    Polling p where
  fetcher i w := h.fetcher_poll hb
  polled r i w hp hf := by
    subst hp
    exact h.tryPoll_prompt hb hf
  offer n item wait hm := h.offer_poll hb hm
  line t ht := by
    have hasks := ((h.lockLines hb).tracker.mem_iff t).mp ht
    cases t with
    | emitter j => exact hasks.elim
    | fetcher i =>
      obtain ⟨s, hs, hwaits⟩ := hasks
      cases s with
      | injecting k => exact absurd hs ((h.handshake hb).fetcher i k)
      | _ => cases hwaits
    | call n =>
      obtain ⟨s, hm, hwaits⟩ := hasks
      refine ⟨n, s, rfl, hm, fun item wait hreq => ?_⟩
      obtain ⟨r, hr, hserves⟩ := (h.sections hb).request n s hm
      obtain rfl := Option.some.inj (hr.symm.trans hreq)
      cases s with
      | offerPolling item' w =>
        obtain ⟨wait', hr⟩ := hserves
        cases hr
        exact ⟨w, rfl⟩
      | offerInjecting item' w k => exact absurd hm ((h.handshake hb).offer n item' w k)
      | offering | sending | batching | pausing | finishing | stopping => cases hwaits
      | _ => cases hserves
  waiting n s hm hs := by
    obtain ⟨r, hr, hserves⟩ := (h.sections hb).request n s hm
    cases s with
    | offerInjecting item wait k => exact absurd hm ((h.handshake hb).offer n item wait k)
    | checkInjecting k =>
      obtain rfl : r = .checkActive := hserves
      exact hr
    | _ => cases hs
  injected := h.injectsForCheck hb
  ended i hi := h.opened_of_exit hb _ hi rfl

end Runs

/-- A fetch worker passes over its poll while the workers are launched, then polls after an idle
wait and after an item, and an offer polls before it sends. Of two checks, the first one waits with
the stop signal for the emit worker. -/
def manyPolls : List Action :=
  [.invoke 0 .start, .proceed (.call 0), .proceed (.call 0),
    .proceed (.fetcher 0), .clientReturns 0 (.value ()), .proceed (.fetcher 0), .tick 1000,
    .proceed (.fetcher 0), .proceed (.call 0), .proceed (.call 0),
    .proceed (.fetcher 0), .tick 1000, .proceed (.fetcher 0),
    .invoke 1 (.offer default .endless), .proceed (.call 1), .proceed (.call 1), .proceed (.call 1),
    .proceed (.fetcher 0), .proceed (.fetcher 0), .processReturns 0 (.value .crashed),
    .invoke 2 .finish, .proceed (.call 2), .proceed (.call 2),
    .proceed (.fetcher 0), .proceed (.fetcher 0),
    .invoke 3 .checkActive, .invoke 4 .checkActive, .proceed (.call 3)]

theorem manyPolls_only_checks_wait :
    ∃ p q, build narrow default = .built p ∧ p.run manyPolls = some q ∧
      q.trackerLock.line = [.call 3, .call 4] ∧ (3, .checkInjecting ⟨1, 122000⟩) ∈ q.calls ∧
      Polling q := by
  refine ⟨_, _, rfl, rfl, rfl, List.mem_cons_self, ?_⟩
  exact Reaches.only_checks_wait ⟨manyPolls, rfl⟩ (show build narrow default = _ from rfl)

end Pipeline

end DocumentPipeline
