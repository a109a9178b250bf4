import DocumentPipeline.Proofs.Draining
import DocumentPipeline.Proofs.Shutdown
import DocumentPipeline.Proofs.Teardown

/-! # Announcements that are made again

Only the first announcement that is not refused sends stop signals; a later one returns with
success at once. So a later success means that the first one has sent all of its signals, is
still sending them, has stalled, or was given up. What was missing when it was given up stays
missing: nobody sends the rest.
-/
namespace DocumentPipeline

/-- Whether the event tells that an announcement has succeeded. -/
@[simp] def Event.succeeds : Event → Bool
  | replied _ (.finished (.ok _)) => true
  | _ => false

theorem Event.not_succeeds_of_not_isCalling {e : Event} (h : e.isCalling = false) :
    e.succeeds = false := by
  cases e with
  | replied n a => cases h
  | _ => rfl

theorem Event.stops_of_not_isCalling {e : Event} (h : e.isCalling = false) :
    e.enqueued.count .stop = 0 := by
  cases e with
  | stopQueued r => cases r <;> simp_all
  | _ => simp_all

theorem CallStage.announces_of_succeeds {s : CallStage} {n : Nat} {e : Event} (h : s.records n e)
    (he : e.succeeds = true) : s.announces = true := by
  cases e with
  | replied m a =>
    cases a with
    | finished r => cases s <;> simp_all
    | _ => cases he
  | _ => cases he

theorem CallStage.stops_of_records {s : CallStage} {n : Nat} {e : Event} (h : s.records n e)
    (hs : s.announces = false) : e.enqueued.count .stop = 0 := by
  cases e with
  | admitted m items => simp [List.count_eq_zero]
  | stopQueued r => cases r <;> cases s <;> simp_all
  | _ => rfl

/-- An announcement is given up by its caller and by nobody else. -/
theorem Announcement.abandoned_of_next {a : Announcement} {e : Event}
    (he : ∀ n, e ≠ .cancelled n) (h : a.next e = .abandoned) : a = .abandoned := by
  unfold next at h
  split at h
  · cases h
  · split at h
    · cases h
    · split at h <;> cases h
  · split at h <;> cases h
  · exact absurd rfl (he _)
  · exact h

@[simp] theorem Announcement.abandoned_next (e : Event) : abandoned.next e = .abandoned := rfl

/-- An announcement that was given up stays so. -/
theorem History.abandoned_of_suffix {past h : History} (hs : past <:+ h)
    (ha : past.announcement = .abandoned) : h.announcement = .abandoned := by
  obtain ⟨later, rfl⟩ := hs
  induction later with
  | nil => exact ha
  | cons x later ih => rw [List.cons_append, announcement_cons, ih, Announcement.abandoned_next]

theorem History.abandoned_of_adds {past h : History}
    (ha : Adds (fun e => ∀ n, e ≠ .cancelled n) past h) (hh : h.announcement = .abandoned) :
    past.announcement = .abandoned := by
  obtain ⟨new, hn, rfl⟩ := ha
  induction new with
  | nil => exact hh
  | cons x new ih =>
    exact ih (fun y hy => hn y (List.mem_cons_of_mem _ hy))
      (Announcement.abandoned_of_next (hn x List.mem_cons_self) hh)

theorem CallStage.Sent.lt {clients sent : Nat} {s : CallStage} (h : s.Sent clients sent)
    (hpos : 0 < clients) : sent < clients := by
  cases s with
  | finishing => exact (show sent = 0 from h) ▸ hpos
  | stopping left deadline => obtain ⟨hl, hsum⟩ := h; omega
  | stallingOut => exact h
  | _ => cases h

namespace Pipeline

variable {p q p₀ : Pipeline} {n : Nat} {s : CallStage} {settings : Settings} {origin : Instant}

/-- Only an announcement that is under way sends signals. -/
theorem Move.fetchStops_eq (hm : Move p q)
    (ho : ∀ n s, (n, s) ∈ p.calls → s.announces = false) :
    q.history.fetchStops = p.history.fetchStops := by
  have unsent (ha : History.Adds (fun e => e.enqueued.count .stop = 0) p.history q.history) :
      q.history.fetchStops = p.history.fetchStops :=
    ha.ignored fun x h hx => by
      rw [History.fetchStops, History.log_cons, List.count_append, hx, Nat.add_zero]
      rfl
  have kept (hk : CallsKept p q) : q.history.fetchStops = p.history.fetchStops :=
    unsent (hk.history.mono fun _ => Event.stops_of_not_isCalling)
  cases hm with
  | @invoke n r q hn hi =>
    exact unsent (hi.adds rfl fun _ => rfl)
  | cancel => exact unsent (.one rfl)
  | close => exact kept (.close p)
  | drop => exact kept (.drop p)
  | tick => rfl
  | @call n s q hn hc =>
    exact unsent (hc.records.mono fun e he => CallStage.stops_of_records he (ho n s hn))
  | fetcher hw hf => exact kept hf.callsKept
  | emitter hw he => exact kept he.callsKept

/-- Once the announcement was given up, no more signals are sent. -/
theorem Reaches.fetchStops_eq_of_abandoned (h : p₀.Reaches p)
    (hb : build settings origin = .built p₀) (ha : p.history.announcement = .abandoned)
    (hq : p.Reaches q) : q.history.fetchStops = p.history.fetchStops := by
  refine hq.invariant (I := fun r => r.history.fetchStops = p.history.fetchStops) rfl
    fun r u hr ih hm => ?_
  have hgone := History.abandoned_of_suffix hr.suffix ha
  have hann := (h.trans hr).announced hb
  rw [hgone] at hann
  cases hann with
  | abandoned _ _ ho => exact (hm.fetchStops_eq ho).trans ih

/-- A step after which the announcement is given up is the one that gives it up. -/
theorem Move.abandons (hm : Move p q) (hp : p.history.announcement ≠ .abandoned)
    (hq : q.history.announcement = .abandoned) :
    ∃ n, p.history.announcement = .pending n ∧ q.history = ⟨p.now, .cancelled n⟩ :: p.history := by
  have stays (ha : History.Adds (fun e => ∀ n, e ≠ .cancelled n) p.history q.history) : False :=
    hp (History.abandoned_of_adds ha hq)
  have kept (hk : CallsKept p q) : False := stays (hk.history.mono fun e he n hn => by
    subst hn
    cases he)
  cases hm with
  | @invoke n r q hn hi =>
    exact (stays (hi.adds (by simp) fun _ => by simp)).elim
  | @cancel n s hm =>
    have hnext : p.history.announcement.next (.cancelled n) = .abandoned := hq
    cases ha : p.history.announcement with
    | pending k =>
      rw [ha, Announcement.next] at hnext
      split at hnext
      · cases hnext
      · next hk => exact ⟨k, rfl, by rw [show k = n from (not_not.mp hk).symm]; rfl⟩
    | abandoned => exact absurd ha hp
    | unmade | returned => rw [ha] at hnext; cases hnext
  | close => exact (kept (.close p)).elim
  | drop => exact (kept (.drop p)).elim
  | tick => exact absurd hq hp
  | @call n s q hn hc =>
    refine (stays (hc.records.mono fun e he m hm => ?_)).elim
    subst hm
    cases s <;> simp_all
  | fetcher hw hf => exact (kept hf.callsKept).elim
  | emitter hw he => exact (kept he.callsKept).elim

/-- An announcement that was given up has not sent all of its signals. -/
theorem Reaches.fetchStops_lt_of_abandoned (h : p₀.Reaches p)
    (hb : build settings origin = .built p₀) :
    p.history.announcement = .abandoned →
      p.history.fetchStops < p.settings.numClients.toNat := by
  refine h.invariant (I := fun r => r.history.announcement = .abandoned →
    r.history.fetchStops < r.settings.numClients.toNat) ?_ fun r q hr ih hm hq => ?_
  · obtain ⟨-, -, rfl⟩ := build_eq_built hb
    exact nofun
  · have hann := hr.announced hb
    rw [hm.settings]
    by_cases hp : r.history.announcement = .abandoned
    · rw [hp] at hann
      cases hann with
      | abandoned _ _ ho => exact hm.fetchStops_eq ho ▸ ih hp
    · obtain ⟨n, hn, hh⟩ := hm.abandons hp hq
      rw [hn] at hann
      cases hann with
      | pending _ _ hs =>
        have hlt := hs.lt (hr.numClients_pos hb)
        rw [hh]
        simpa [History.fetchStops] using hlt

theorem Move.stopsClaimed (hm : Move p q) (hc : p.stopsClaimed = true) :
    q.stopsClaimed = true := by
  have hoffer {n : Nat} {item : WorkItem} {wait : Wait} {v : Pipeline × Verdict}
      (hv : v.1.stopsClaimed = true) : (afterOfferPoll n item wait v).stopsClaimed = true := by
    obtain ⟨r, v⟩ := v
    cases v <;> exact hv
  have hcheck {n : Nat} {v : Pipeline × Verdict} (hv : v.1.stopsClaimed = true) :
      (afterCheckPoll n v).stopsClaimed = true := by
    obtain ⟨r, v⟩ := v
    cases v <;> exact hv
  cases hm with
  | invoke hn hi => cases hi <;> first | exact hc | rfl
  | cancel | drop | tick => exact hc
  | close => exact (CallsKept.close p).stopsClaimed.trans hc
  | call hm hs =>
    have hinjected {t : Task} {i : Injection} {v : Pipeline × Verdict}
        (hi : p.inject? t i = some v) : v.1.stopsClaimed = true :=
      (CallsKept.injected (inject?_injected hi)).stopsClaimed.trans hc
    cases hs with
    | offerPolled => exact hoffer ((Polled.poll _ _).stopsClaimed.trans hc)
    | offerInjected hi => exact hoffer (hinjected hi)
    | checked => exact hcheck ((Polled.poll _ _).stopsClaimed.trans hc)
    | checkInjected hi => exact hcheck (hinjected hi)
    | _ => exact hc
  | fetcher hw hf => exact hf.callsKept.stopsClaimed.trans hc
  | emitter hw he => exact he.callsKept.stopsClaimed.trans hc

/-- An announcement succeeds when the signals are taken care of. -/
theorem Move.claimed_of_succeeds (hm : Move p q) (hx : Sections p)
    (ha : Announced p p.history.announcement) {x : Entry} (hmem : x ∈ q.history)
    (he : x.event.succeeds = true) : x ∈ p.history ∨ q.stopsClaimed = true := by
  have old {P : Event → Prop} (ha : History.Adds P p.history q.history)
      (hP : ∀ e, P e → e.succeeds = false) : x ∈ p.history :=
    (ha.mem hmem).resolve_left fun h => by cases (hP _ h).symm.trans he
  have kept (hk : CallsKept p q) : x ∈ p.history :=
    old hk.history fun _ => Event.not_succeeds_of_not_isCalling
  cases hm with
  | @invoke n r q hn hi =>
    have hinvoked : History.Adds (fun e => e.succeeds = false) p.history
        (p.record (.invoked n r)).history := .one rfl
    cases hi with
    | finishAgain _ _ hf => exact .inr hf
    | start | check | status | offer | batch | finish => exact .inl (old hinvoked fun _ => id)
    | batchRefused | batchTooLarge | batchEmpty | finishEarly | finishLate =>
      exact .inl (old (hinvoked.trans (.one rfl)) fun _ => id)
  | cancel => exact .inl (old (P := fun e => e.succeeds = false) (.one rfl) fun _ => id)
  | close => exact .inl (kept (.close p))
  | drop => exact .inl (kept (.drop p))
  | tick => exact .inl hmem
  | @call n s q hn hc =>
    rcases hc.records.mem hmem with hr | hold
    · have hs := CallStage.announces_of_succeeds hr he
      obtain ⟨-, hclaimed, -⟩ := ha.of_announces hx hn hs
      exact .inr ((Move.call hn hc).stopsClaimed hclaimed)
    · exact .inl hold
  | fetcher hw hf => exact .inl (kept hf.callsKept)
  | emitter hw he => exact .inl (kept he.callsKept)

theorem Reaches.claimed_of_succeeds (h : p₀.Reaches p) (hb : build settings origin = .built p₀) :
    (∃ x ∈ p.history, x.event.succeeds = true) → p.stopsClaimed = true := by
  refine h.invariant (I := fun r => (∃ x ∈ r.history, x.event.succeeds = true) →
    r.stopsClaimed = true) ?_ fun r q hr ih hm => ?_
  · obtain ⟨-, -, rfl⟩ := build_eq_built hb
    rintro ⟨x, hx, -⟩
    cases hx
  · rintro ⟨x, hx, he⟩
    rcases hm.claimed_of_succeeds (hr.sections hb) (hr.announced hb) hx he with hold | hc
    · exact hm.stopsClaimed (ih ⟨x, hold, he⟩)
    · exact hc

/-- An announcement that fails tears the pipeline down. -/
theorem Reaches.closed_of_fails (h : p₀.Reaches p) (hb : build settings origin = .built p₀) :
    (∃ x ∈ p.history, x.event.fails = true) → p.closed = true := by
  refine h.invariant (I := fun r => (∃ x ∈ r.history, x.event.fails = true) →
    r.closed = true) ?_ fun r q hr ih hm => ?_
  · obtain ⟨-, -, rfl⟩ := build_eq_built hb
    rintro ⟨x, hx, -⟩
    cases hx
  · rintro ⟨x, hx, he⟩
    rcases hm.stallingOut_of_fails hx he with hold | ⟨n, -, hc⟩
    · exact hm.closed (ih ⟨x, hold, he⟩)
    · cases hc with
      | stalledOut => rfl
      | batchAdmitted hl | batchExpired hl | batchPaused hl => cases hl

/-- When an announcement has returned with success, none is under way and the pipeline is not
closed, then there is a signal for each fetch worker, on the queue or taken by a worker that has
finished. It is so unless the first announcement was given up: then a signal is missing, no later
announcement sends it, and some fetch worker never finishes. -/
theorem Reaches.finish_signalled (h : p₀.Reaches p) (hb : build settings origin = .built p₀)
    {time : Nat} (hr : ⟨time, .replied n (.finished (.ok ()))⟩ ∈ p.history)
    (hi : ∀ c ∈ p.calls, c.2.announces = false) (hc : p.closed = false) :
    (p.history.announcement ≠ .abandoned →
      p.history.fetchStops = p.settings.numClients.toNat ∧
        (p.history.finishersOf .fetch).length + p.intake.messages.count .stop =
          p.settings.numClients.toNat) ∧
      (p.history.announcement = .abandoned → ∀ q, p.Reaches q →
        q.history.fetchStops = p.history.fetchStops ∧
          q.history.fetchStops < q.settings.numClients.toNat ∧
          (q.history.finishersOf .fetch).length < q.settings.numClients.toNat) := by
  refine ⟨fun hkept => ?_, fun ha q hq => ?_⟩
  · have hclaimed := h.claimed_of_succeeds hb ⟨_, hr, rfl⟩
    have hsent : p.history.fetchStops = p.settings.numClients.toNat := by
      have hann := h.announced hb
      cases hp : p.history.announcement with
      | abandoned => exact absurd hp hkept
      | unmade =>
        rw [hp] at hann
        cases hann with
        | unmade hu => cases hu.symm.trans hclaimed
      | pending k =>
        rw [hp] at hann
        cases hann with
        | pending _ hm hs => cases (hi _ hm).symm.trans hs.announces
      | returned r =>
        cases r with
        | ok => exact Announced.fetchStops_eq (hp ▸ hann)
        | error e => cases hc.symm.trans (h.closed_of_fails hb (fails_of_returned hp))
    exact ⟨hsent, (h.fetchStops_split hb).symm.trans hsent⟩
  · have hlt := (h.trans hq).fetchStops_lt_of_abandoned hb
      (History.abandoned_of_suffix hq.suffix ha)
    have hsplit := (h.trans hq).fetchStops_split hb
    exact ⟨h.fetchStops_eq_of_abandoned hb ha hq, hlt, by omega⟩

/-- The announcement that is made while another one waits for a slot succeeds at once; when both
have returned, both signals are on the queue or taken. -/
theorem contestedShutdown_signalled :
    ∃ p q, build paired default = .built p ∧ p.run contestedShutdown = some q ∧
      q.history.announcement ≠ .abandoned ∧
      (q.history.announcement ≠ .abandoned →
        q.history.fetchStops = q.settings.numClients.toNat ∧
          (q.history.finishersOf .fetch).length + q.intake.messages.count .stop =
            q.settings.numClients.toNat) ∧
      (q.history.announcement = .abandoned → ∀ r, q.Reaches r →
        r.history.fetchStops = q.history.fetchStops ∧
          r.history.fetchStops < r.settings.numClients.toNat ∧
          (r.history.finishersOf .fetch).length < r.settings.numClients.toNat) := by
  refine ⟨_, _, rfl, rfl, by decide, ?_⟩
  exact Reaches.finish_signalled ⟨contestedShutdown, rfl⟩
    (show build paired default = _ from rfl) (List.mem_of_getElem? (i := 23) rfl) (by decide) rfl

/-- An item takes one of two slots. The announcement sends one of two signals, and is given up
while it waits for a slot. Then it is made again. -/
def desertedFinish : List Action :=
  .invoke 0 .start :: List.replicate 6 (.proceed (.call 0)) ++
    [.invoke 1 (.offer default .endless), .proceed (.call 1), .proceed (.call 1),
      .proceed (.call 1), .invoke 2 .finish, .proceed (.call 2), .proceed (.call 2), .cancel 2,
      .invoke 3 .finish]

/-- The second announcement returns with success while no other call is pending and the pipeline is
not closed, and one of two signals has been sent. -/
theorem desertedFinish_short :
    ∃ p q, build paired default = .built p ∧ p.run desertedFinish = some q ∧
      q.history.head?.map Entry.event = some (.replied 3 (.finished (.ok ()))) ∧
      q.calls = [] ∧ q.closed = false ∧ q.settings.numClients.toNat = 2 ∧
      q.history.fetchStops = 1 := by
  refine ⟨_, _, rfl, rfl, rfl, rfl, rfl, rfl, rfl⟩

end Pipeline

end DocumentPipeline
