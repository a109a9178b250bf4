import DocumentPipeline.Proofs.Answers

/-! # When an offer gives up

An offer that has been let in joins the line for a slot of the intake queue, and its timeout runs
from there. It is told that it was not admitted only when the timeout is over, and only if every
slot was filled at each moment in between.
-/
namespace DocumentPipeline

/-- When a timeout is over that starts at a time. An endless one is cut to thirty years. -/
inductive Wait.Ends (start : Nat) : Wait → Nat → Prop
  | millis (n : Nat) : Ends start (.millis n) (start + n)
  | endless : Ends start .endless (start + 946080000000)

theorem Wait.ends_timeout (w : Wait) (now : Nat) : w.Ends now (w.timeout now) := by
  cases w with
  | millis n => exact .millis n
  | endless => exact .endless

/-- Only a submission at one of these stages can be told that it was not admitted. -/
theorem CallStage.waits_of_records {s : CallStage} {n : Nat}
    (h : s.records n (.replied n (.offered (.ok false)))) :
    (∃ item deadline, s = .sending item deadline) ∨ (∃ items wait, s = .batching items wait) ∨
      ∃ items wake deadline, s = .pausing items wake deadline := by
  cases s with
  | sending item deadline => exact .inl ⟨item, deadline, rfl⟩
  | batching items wait => exact .inr (.inl ⟨items, wait, rfl⟩)
  | pausing items wake deadline => exact .inr (.inr ⟨items, wake, deadline, rfl⟩)
  | _ => simp at h

/-- No call begins with a step of another one. -/
theorem CallStage.not_invoked_of_records {s : CallStage} {m : Nat} {e : Event}
    (h : s.records m e) (n : Nat) (r : Request) : e ≠ .invoked n r := by
  rintro rfl
  cases s <;> simp at h

namespace Pipeline

variable {p q p₀ : Pipeline} {n deadline time : Nat} {s : CallStage} {item : WorkItem} {wait : Wait}
  {as : List Action} {settings : Settings} {origin : Instant}

theorem CallMove.begins_sending {item : WorkItem} {deadline : Nat} (hc : CallMove p n s q)
    (ha : Answering p) (hm : (n, s) ∈ p.calls)
    (hq : (n, .sending item deadline) ∈ q.calls) :
    ∃ wait, q.history.requestOf n = some (.offer item wait) ∧ wait.Ends q.now deadline := by
  have hkept := (hc.goes_on hq).1
  have hoffer {item' : WorkItem} {wait : Wait} {v : Pipeline × Verdict}
      (hv : q = afterOfferPoll n item' wait v) (hasks : s.asks = some (.offer item' wait)) :
      ∃ wait, q.history.requestOf n = some (.offer item wait) ∧ wait.Ends q.now deadline := by
    subst hv
    rw [hkept.ignored fun _ _ => History.requestOf_of_ne, ha.asked n s _ hm hasks]
    obtain ⟨r, v⟩ := v
    cases v with
    | failed e => exact absurd hq not_mem_reply
    | injecting i => cases stage_of_setCall hq
    | active b =>
      obtain ⟨rfl, rfl⟩ := CallStage.sending.inj (stage_of_setCall hq)
      exact ⟨wait, rfl, wait.ends_timeout _⟩
  cases hc with
  | offerPolled => exact hoffer rfl rfl
  | offerInjected => exact hoffer rfl rfl
  | startedBefore | opened | offerRefused | sent | unsent | batchRefused | batchAdmitted
  | batchExpired | noStops | lastStop | stalledOut | read => exact absurd hq not_mem_reply
  | launching | offerAccepted | launchFetcher | launchEmitter | batchPaused | firstStop
  | nextStop | stopStalled => cases stage_of_setCall hq
  | checked =>
    generalize p.poll (.call n) = v at hq
    obtain ⟨r, v⟩ := v
    cases v with
    | failed | active => exact absurd hq not_mem_reply
    | injecting => cases stage_of_setCall hq
  | @checkInjected i v =>
    obtain ⟨r, v⟩ := v
    cases v with
    | failed | active => exact absurd hq not_mem_reply
    | injecting => cases stage_of_setCall hq

/-- An offer begins to wait for its slot when its poll is over; its timeout runs from there. -/
theorem Move.begins_sending {item : WorkItem} {deadline : Nat} (hm : Move p q) (ha : Answering p)
    (hx : Sections p) (hn : (n, .sending item deadline) ∉ p.calls)
    (hq : (n, .sending item deadline) ∈ q.calls) :
    ∃ wait, q.history.requestOf n = some (.offer item wait) ∧ wait.Ends q.now deadline := by
  rcases hm.origin hx hq with ⟨s, hs, hc⟩ | ⟨hold, -⟩ | ⟨r, -, hr⟩
  · exact hc.begins_sending ha hs hq
  · exact absurd hold hn
  · cases r <;> cases hr

/-- As long as an offer waits for its slot it does nothing, and the queue only loses messages. -/
theorem Move.sending (hm : Move p q) (hx : Sections p) (hn : (n, .sending item deadline) ∈ p.calls)
    (hq : (n, .sending item deadline) ∈ q.calls) :
    Waits n p q ∧ q.intake.messages <:+ p.intake.messages := by
  rcases hm.pending hx hn with hc | rfl | ⟨hw, hkept⟩
  · cases hc with
    | sent | unsent => exact absurd hq not_mem_reply
    | batchAdmitted hl => cases hl
    | batchExpired hl => cases hl
    | batchPaused hl => cases hl
  · simp [record] at hq
  · exact ⟨hw, hkept rfl⟩

/-- A caller is told that its submission was not admitted with the submission's own step only. -/
theorem Move.refuses (hm : Move p q) (hx : Sections p) :
    (∃ s, (n, s) ∈ p.calls ∧ CallMove p n s q) ∨
      History.Adds (fun e => e ≠ .replied n (.offered (.ok false))) p.history q.history := by
  have waiting (hw : Waits n p q) :
      History.Adds (fun e => e ≠ .replied n (.offered (.ok false))) p.history q.history :=
    hw.history.mono fun e he hr => he (by simp [hr])
  by_cases hp : ∃ s, (n, s) ∈ p.calls
  · obtain ⟨s, hs⟩ := hp
    rcases hm.pending hx hs with hc | rfl | ⟨hw, -⟩
    · exact .inl ⟨s, hs, hc⟩
    · exact .inr (.one (by simp))
    · exact .inr (waiting hw)
  · rcases hm.unpending (fun s hs => hp ⟨s, hs⟩) with ⟨r, hi⟩ | hw
    · refine .inr (.trans (g := (p.record (.invoked n r)).history) (.one (by simp)) ?_)
      cases hi with
      | start | check | status | offer | batch | finish => exact .refl _
      | batchRefused | batchTooLarge | batchEmpty | finishEarly | finishLate | finishAgain =>
        exact .one (by simp)
    · exact .inr (waiting hw)

/-- An offer that waits for a slot is told that it was not admitted when every slot is filled and its
timeout is over. -/
theorem CallMove.unsent_of_refused {past : History} (hc : CallMove p n (.sending item deadline) q)
    (hl : Lines p) (hx : Sections p) (hs : (n, .sending item deadline) ∈ p.calls)
    (hh : ⟨time, .replied n (.offered (.ok false))⟩ :: past <:+ q.history)
    (hp : p.history <:+ past) :
    p.history = past ∧ q.history = ⟨time, .replied n (.offered (.ok false))⟩ :: past ∧
      p.now = time ∧ p.settings.queueSize.toNat ≤ p.intake.messages.length ∧ deadline ≤ time := by
  cases hc with
  | sent =>
    have hadds : History.Adds (fun e => e ≠ .replied n (.offered (.ok false))) p.history
        ((({ p with intake := p.intake.push (.call n) (.data item) }.record
          (.admitted n [item])).reply n (.offered (.ok true)))).history :=
      .trans (.one (by simp)) (.one (by simp))
    exact absurd rfl (hadds.of_suffix hh hp)
  | unsent hslot hd =>
    -- it is the first in line, so that it has no slot only if there is none
    have hcap := hl.intake.capacity
    rw [Queue.hasSlot, hl.senders_eq hx hs rfl] at hslot
    simp only [List.mem_singleton, List.idxOf_cons_self, decide_true, Bool.true_and,
      decide_eq_false_iff_not] at hslot
    rcases List.suffix_cons_iff.mp hh with heq | hlonger
    · cases heq
      exact ⟨rfl, rfl, rfl, by omega, hd⟩
    · exact absurd (hlonger.trans hp).length_le (by simp)
  | batchAdmitted hlook => cases hlook
  | batchExpired hlook => cases hlook
  | batchPaused hlook => cases hlook

/-- An offer is told that it was not admitted only while it waits for a slot, when every slot is
filled and its timeout is over. -/
theorem Move.gives_up {past : History} (hm : Move p q) (hl : Lines p) (hx : Sections p)
    (hh : ⟨time, .replied n (.offered (.ok false))⟩ :: past <:+ q.history)
    (hp : p.history <:+ past) (hr : past.requestOf n = some (.offer item wait)) :
    p.history = past ∧ q.history = ⟨time, .replied n (.offered (.ok false))⟩ :: past ∧
      p.now = time ∧ p.settings.queueSize.toNat ≤ p.intake.messages.length ∧
        ∃ deadline, deadline ≤ time ∧ (n, .sending item deadline) ∈ p.calls := by
  rcases hm.refuses (n := n) hx with ⟨s, hs, hc⟩ | hnot
  · obtain ⟨request, hrequest, hserves⟩ := hx.request n s hs
    have hcalled := hc.records.mono fun _ => CallStage.not_invoked_of_records
    have hsame := (hcalled.split hp ((List.suffix_cons _ _).trans hh)).1.requestOf_eq (n := n)
    rw [hsame, hrequest] at hr
    obtain rfl := Option.some.inj hr
    rcases CallStage.waits_of_records (hc.records.of_suffix hh hp) with
      ⟨item', deadline, rfl⟩ | ⟨items, w, rfl⟩ | ⟨items, wake, d, rfl⟩
    · obtain ⟨w, hw⟩ := hserves
      cases hw
      obtain ⟨hpast, hanswer, htime, hfull, hd⟩ := hc.unsent_of_refused hl hx hs hh hp
      exact ⟨hpast, hanswer, htime, hfull, deadline, hd, hs⟩
    · obtain ⟨w, hw⟩ := hserves
      cases hw
    · obtain ⟨w, hw⟩ := hserves
      cases hw
  · exact absurd rfl (hnot.of_suffix hh hp)

/-- With this step an offer begins to wait for a slot, and its timeout begins to run. -/
structure BeginsSend (n : Nat) (item : WorkItem) (wait : Wait) (deadline : Nat)
    (p q : Pipeline) : Prop where
  before : (n, .sending item deadline) ∉ p.calls
  after : (n, .sending item deadline) ∈ q.calls
  request : q.history.requestOf n = some (.offer item wait)
  timeout : wait.Ends q.now deadline

/-- At every moment of this run the offer waits for a slot and all of them are filled. -/
def FindsNoSlot (n : Nat) (item : WorkItem) (deadline : Nat) (p : Pipeline)
    (as : List Action) : Prop :=
  ∀ bs, bs <+: as → ∃ q, p.run bs = some q ∧ (n, .sending item deadline) ∈ q.calls ∧
    q.intake.messages.length = q.settings.queueSize.toNat

/-- How an offer comes to be told at a time that it was not admitted. It has begun to wait for a
slot with some step, it has found none until the step that answers it, and its timeout is over by
then. -/
def WaitedInVain (p : Pipeline) (as : List Action) (n : Nat) (item : WorkItem) (wait : Wait)
    (time : Nat) (past : History) : Prop :=
  ∃ before a during b after c r s t deadline,
    as = before ++ a :: (during ++ b :: after) ∧ p.run before = some c ∧ c.step a = some r ∧
      BeginsSend n item wait deadline c r ∧ r.run during = some s ∧
      FindsNoSlot n item deadline r during ∧ s.step b = some t ∧ s.now = time ∧ deadline ≤ time ∧
      s.history = past ∧ t.history = ⟨time, .replied n (.offered (.ok false))⟩ :: past

/-- After this run an offer waits for a slot. It has begun to with some step, and since then it has
been waiting and the queue has only lost messages. -/
def HasWaited (p : Pipeline) (as : List Action) (q : Pipeline) (n : Nat) (item : WorkItem)
    (deadline : Nat) : Prop :=
  ∃ before a during c r wait, as = before ++ a :: during ∧ p.run before = some c ∧
    c.step a = some r ∧ BeginsSend n item wait deadline c r ∧ r.run during = some q ∧
    q.history.requestOf n = some (.offer item wait) ∧
    ∀ bs, bs <+: during → ∃ v, r.run bs = some v ∧ (n, .sending item deadline) ∈ v.calls ∧
      q.intake.messages <:+ v.intake.messages

theorem run_hasWaited (h : p.run as = some q) (hb : build settings origin = .built p)
    (hm : (n, .sending item deadline) ∈ q.calls) : HasWaited p as q n item deadline := by
  refine run_induction (I := fun as q => (n, .sending item deadline) ∈ q.calls →
    HasWaited p as q n item deadline) h (fun hm => ?_) (fun as a r s hr ih hs hm => ?_) hm
  · obtain ⟨-, -, rfl⟩ := build_eq_built hb
    cases hm
  · have hreached : p.Reaches r := ⟨as, hr⟩
    have hx := hreached.sections hb
    by_cases hold : (n, .sending item deadline) ∈ r.calls
    · obtain ⟨before, b, during, c, v, wait, rfl, hc, hv, hbegin, hrun, hrequest, hkept⟩ := ih hold
      obtain ⟨hw, hsuffix⟩ := (step_move hs).sending hx hold hm
      have hrun' : v.run (during ++ [a]) = some s := by simp [run_append, hrun, hs]
      refine ⟨before, b, during ++ [a], c, v, wait, by simp, hc, hv, hbegin, hrun', ?_,
        fun bs hbs => ?_⟩
      · rwa [hw.ignored fun _ _ => History.requestOf_of_ne]
      · rcases List.prefix_concat_iff.mp hbs with rfl | hbs
        · exact ⟨s, hrun', hm, List.suffix_rfl⟩
        · obtain ⟨u, hu, hmu, hsu⟩ := hkept bs hbs
          exact ⟨u, hu, hmu, hsuffix.trans hsu⟩
    · obtain ⟨wait, hrequest, htime⟩ :=
        (step_move hs).begins_sending (hreached.answering hb) hx hold hm
      refine ⟨as, a, [], r, s, wait, rfl, hr, hs, ⟨hold, hm, hrequest, htime⟩, rfl, hrequest,
        fun bs hbs => ?_⟩
      obtain rfl := List.prefix_nil.mp hbs
      exact ⟨s, rfl, hm, List.suffix_rfl⟩

/-- The step that tells an offer that it was not admitted ends a wait in vain. -/
theorem waitedInVain_of_step {past : History} {a : Action} {r : Pipeline} (h : p.run as = some q)
    (hb : build settings origin = .built p) (hs : q.step a = some r)
    (hh : ⟨time, .replied n (.offered (.ok false))⟩ :: past <:+ r.history)
    (hp : q.history <:+ past) (hr : past.requestOf n = some (.offer item wait)) :
    WaitedInVain p (as ++ [a]) n item wait time past := by
  have hreached : p.Reaches q := ⟨as, h⟩
  obtain ⟨rfl, hanswer, htime, hfull, deadline, hd, hm⟩ :=
    (step_move hs).gives_up (hreached.lines hb) (hreached.sections hb) hh hp hr
  obtain ⟨before, b, during, c, v, w, rfl, hc, hv, hbegin, hrun, hrequest, hkept⟩ :=
    run_hasWaited h hb hm
  cases hrequest.symm.trans hr
  refine ⟨before, b, during, a, [], c, v, q, r, deadline, by simp, hc, hv, hbegin, hrun,
    fun bs hbs => ?_, hs, htime, hd, rfl, hanswer⟩
  obtain ⟨u, hu, hmu, hsuffix⟩ := hkept bs hbs
  have hru : p.Reaches u := (Reaches.step ⟨before, hc⟩ hv).trans ⟨bs, hu⟩
  refine ⟨u, hu, hmu, Nat.le_antisymm (hru.lines hb).intake.fits ?_⟩
  rw [hru.settings, ← hreached.settings]
  exact Nat.le_trans hfull hsuffix.length_le

/-- Whatever offer was told that it was not admitted has waited in vain. -/
theorem run_waitedInVain {past : History} (h : p.run as = some q)
    (hb : build settings origin = .built p)
    (hh : ⟨time, .replied n (.offered (.ok false))⟩ :: past <:+ q.history)
    (hr : past.requestOf n = some (.offer item wait)) :
    WaitedInVain p as n item wait time past := by
  refine run_induction (I := fun as q =>
    ⟨time, .replied n (.offered (.ok false))⟩ :: past <:+ q.history →
      WaitedInVain p as n item wait time past) h (fun hh => ?_) (fun as a r s hr' ih hs hh => ?_) hh
  · obtain ⟨-, -, rfl⟩ := build_eq_built hb
    simp at hh
  · have earlier (hh : ⟨time, .replied n (.offered (.ok false))⟩ :: past <:+ r.history) :
        WaitedInVain p (as ++ [a]) n item wait time past := by
      obtain ⟨before, b, during, d, after, c, v, u, t, deadline, rfl, hrest⟩ := ih hh
      exact ⟨before, b, during, d, after ++ [a], c, v, u, t, deadline, by simp, hrest⟩
    rcases List.suffix_or_suffix_of_suffix hh (step_move hs).suffix with hold | hnew
    · exact earlier hold
    · rcases List.suffix_cons_iff.mp hnew with hsame | hp
      · exact earlier (hsame ▸ List.suffix_rfl)
      · exact waitedInVain_of_step hr' hb hs hh hp hr

/-- What submissions can rely on. -/
structure Truthful (p : Pipeline) (as : List Action) (q : Pipeline) : Prop where
  /-- What was put on the intake queue, admitted items and stop signals, has been received or is
  still there. -/
  enqueued : q.history.log Event.enqueued =
    (q.history.log Event.receipt).map Prod.snd ++ q.intake.messages
  /-- A submission that was told that it was admitted has put its items on the queue once. One
  that was told anything else has put none there, not before its return and not since. -/
  answered : ∀ (later past : History) time n r,
    q.history = later ++ ⟨time, .replied n (.offered r)⟩ :: past →
    (∀ x ∈ later, ∀ request, x.event ≠ .invoked n request) →
      ∃ request, past.requestOf n = some request ∧
        (r = .ok true → (q.history.admissionsOf n).flatten = request.items ∧
          (q.history.admissionsOf n).length ≤ 1) ∧
        (r ≠ .ok true → q.history.admissionsOf n = [])
  /-- A batch that can never fit is refused with its first step, and nothing else happens. -/
  tooLarge : ∀ n items wait, q.refusal? = none → q.callStage? n = none →
    q.settings.queueSize.toNat < items.length →
      ∃ r, q.step (.invoke n (.offerBatch items wait)) = some r ∧
        r.history =
          ⟨q.now, .replied n (.offered
            (.error (.batchTooLarge items.length q.settings.queueSize.toNat)))⟩ ::
          ⟨q.now, .invoked n (.offerBatch items wait)⟩ :: q.history ∧
        r.calls = q.calls ∧ r.intake = q.intake
  /-- An offer is told that it was not admitted only after it has waited in vain. -/
  gaveUp : ∀ (later past : History) time n item wait,
    q.history = later ++ ⟨time, .replied n (.offered (.ok false))⟩ :: past →
    past.requestOf n = some (.offer item wait) → WaitedInVain p as n item wait time past

/-- In every run, whatever the callers, the workers and the clock do, submissions are answered
truthfully and admitted as a whole or not at all. -/
theorem run_truthful (h : p.run as = some q) (hb : build settings origin = .built p) :
    Truthful p as q where
  enqueued := (Reaches.balanced ⟨as, h⟩ hb).intake
  answered := by
    intro later past time n r hh hl
    have htold := (Reaches.answering ⟨as, h⟩ hb).told
    rw [hh] at htold ⊢
    rw [(htold.admissionsOf_eq hl).2]
    exact htold.of_suffix ⟨later, rfl⟩
  tooLarge := by
    intro n items wait hr hc hl
    have hn : ∀ s, (n, s) ∉ q.calls := fun s hs => by
      simpa using List.lookup_eq_none_iff.mp hc (n, s) hs
    have hinvoke : q.invoke n (.offerBatch items wait) =
        (q.record (.invoked n (.offerBatch items wait))).reply n
          (.offered (.error (.batchTooLarge items.length q.settings.queueSize.toNat))) := by
      have hr' : (q.record (.invoked n (.offerBatch items wait))).refusal? = none := hr
      have hl' : (q.record (.invoked n (.offerBatch items wait))).settings.queueSize.toNat <
          items.length := hl
      simp only [invoke, invokeBatch, hr', hl', if_true]
      rfl
    have hstep : q.step (.invoke n (.offerBatch items wait)) =
        some (q.invoke n (.offerBatch items wait)) := by
      simp [Pipeline.step, hc]
    refine ⟨_, hstep, ?_⟩
    rw [hinvoke]
    refine ⟨rfl, List.filter_eq_self.mpr fun c hm => ?_, ?_⟩
    · have hne : c.1 ≠ n := fun he => hn c.2 (he ▸ hm)
      simpa using hne
    · have hsenders := List.erase_of_not_mem ((Reaches.lines ⟨as, h⟩ hb).not_mem_senders hn)
      simp [reply, release, record, Queue.leave, hsenders]
  gaveUp := fun later past time n item wait hh hr => run_waitedInVain h hb ⟨later, hh.symm⟩ hr

/-- A batch fills the queue. An offer waits for a slot until its timeout is over, which runs from
the end of its poll, and a batch that can never fit is refused. -/
def refusedIntake : List Action :=
  .invoke 0 .start :: List.replicate 4 (.proceed (.call 0)) ++
    [.invoke 1 (.offerBatch [default, default] (.millis 0)), .proceed (.call 1),
      .invoke 2 (.offer default (.millis 5)), .proceed (.call 2), .tick 3, .proceed (.call 2),
      .tick 5, .proceed (.call 2), .invoke 3 (.offerBatch [default, default, default] .endless)]

theorem refusedIntake_truthful :
    ∃ p q, build narrow default = .built p ∧ p.run refusedIntake = some q ∧
      q.history.admissionsOf 1 = [[default, default]] ∧ q.history.admissionsOf 2 = [] ∧
      q.history.admissionsOf 3 = [] ∧ q.calls = [] ∧
      (∃ later past : History,
        q.history = later ++ ⟨8, .replied 2 (.offered (.ok false))⟩ :: past ∧
          past.requestOf 2 = some (.offer default (.millis 5))) ∧
      Truthful p refusedIntake q := by
  refine ⟨_, _, rfl, rfl, rfl, rfl, rfl, rfl, ⟨[_, _], _, rfl, rfl⟩, ?_⟩
  exact run_truthful rfl (show build narrow default = _ from rfl)

end Pipeline

end DocumentPipeline
