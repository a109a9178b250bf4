import DocumentPipeline.Proofs.Sections

/-! # The announcement that no more work is coming

The first announcement that is not refused takes on the sending of the stop signals, one
for each fetch worker, and no other call sends any. So the number of signals on the intake
queue tells how far it has come.
-/
namespace DocumentPipeline

/-- Whether an announcement with this answer leaves everything to a later one. -/
def PipelineError.refuses : PipelineError → Bool
  | notInitialized | shuttingDown => true
  | _ => false

/-- What has become of the first announcement that was not refused. -/
inductive Announcement where
  | unmade
  | pending (call : Nat)
  | returned (result : Except PipelineError Unit)
  /-- Its caller gave it up. -/
  | abandoned
  deriving DecidableEq

namespace Announcement

def next : Announcement → Event → Announcement
  | unmade, .invoked n .finish => pending n
  | pending n, .replied m (.finished (.error e)) =>
    if m ≠ n then pending n else if e.refuses then unmade else returned (.error e)
  | pending n, .replied m (.finished (.ok ())) => if m ≠ n then pending n else returned (.ok ())
  | pending n, .cancelled m => if m ≠ n then pending n else abandoned
  | a, _ => a

end Announcement

namespace Event

/-- Whether the event has to do with announcements, their stop signals, or a call that is
given up. -/
@[simp] def isAnnouncing : Event → Bool
  | invoked _ .finish | replied _ (.finished _) | cancelled _ | stopQueued .fetch => true
  | _ => false

theorem isAnnouncing_of_not_isCalling {e : Event} (h : e.isCalling = false) :
    e.isAnnouncing = false := by
  cases e with
  | stopQueued r => cases r <;> simp_all
  | _ => simp_all

end Event

theorem Announcement.next_of_not_isAnnouncing {e : Event} (h : e.isAnnouncing = false)
    (a : Announcement) : a.next e = a := by
  cases e with
  | invoked n r => cases a <;> cases r <;> simp_all [next]
  | replied n r => cases a <;> cases r <;> simp_all [next]
  | cancelled n => simp at h
  | _ => cases a <;> rfl

namespace History

/-- The announcement that a history tells of. -/
def announcement (h : History) : Announcement := h.foldr (fun x a => a.next x.event) .unmade

@[simp] theorem announcement_cons (x : Entry) (h : History) :
    announcement (x :: h) = h.announcement.next x.event := rfl

/-- The stop signals that were put on the intake queue. -/
def fetchStops (h : History) : Nat := (h.log Event.enqueued).count .stop

theorem fetchStops_of_not_isAnnouncing {x : Entry} (h : History)
    (hx : x.event.isAnnouncing = false) : fetchStops (x :: h) = h.fetchStops := by
  obtain ⟨time, e⟩ := x
  cases e with
  | stopQueued r => cases r <;> simp_all [fetchStops]
  | admitted n items =>
    have hnone : (items.map Message.data).count .stop = 0 := by simp [List.count_eq_zero]
    simp [fetchStops, hnone]
  | _ => simp [fetchStops]

end History

/-- Whether the announcement, at this stage, has put so many of its stop signals on the
queue. -/
def CallStage.Sent (clients sent : Nat) : CallStage → Prop
  | finishing => sent = 0
  | stopping left _ => 0 < left ∧ sent + left = clients
  | stallingOut => sent < clients
  | _ => False

theorem CallStage.Sent.announces {clients sent : Nat} {s : CallStage} (h : s.Sent clients sent) :
    s.announces = true := by
  cases s <;> first | rfl | cases h

theorem CallStage.Sent.le {clients sent : Nat} {s : CallStage} (h : s.Sent clients sent) :
    sent ≤ clients := by
  cases s with
  | finishing => exact (show sent = 0 from h) ▸ Nat.zero_le _
  | stopping left deadline => exact h.2 ▸ Nat.le_add_right _ _
  | stallingOut => exact Nat.le_of_lt h
  | _ => cases h

namespace Pipeline

/-- How far the announcement has come. -/
inductive Announced (p : Pipeline) : Announcement → Prop
  | unmade (hc : p.stopsClaimed = false) (hs : p.history.fetchStops = 0)
      (ho : ∀ n s, (n, s) ∈ p.calls → s.announces = false) : Announced p .unmade
  | pending {n s} (hc : p.stopsClaimed = true) (hm : (n, s) ∈ p.calls)
      (hs : s.Sent p.settings.numClients.toNat p.history.fetchStops)
      (ho : ∀ m u, (m, u) ∈ p.calls → u.announces = true → m = n) : Announced p (.pending n)
  | returned {r} (hc : p.stopsClaimed = true)
      (hs : p.history.fetchStops ≤ p.settings.numClients.toNat)
      (hr : r = .ok () → p.history.fetchStops = p.settings.numClients.toNat)
      (ho : ∀ n s, (n, s) ∈ p.calls → s.announces = false) : Announced p (.returned r)
  | abandoned (hc : p.stopsClaimed = true)
      (hs : p.history.fetchStops ≤ p.settings.numClients.toNat)
      (ho : ∀ n s, (n, s) ∈ p.calls → s.announces = false) : Announced p .abandoned

/-- What an announcement rests on. -/
def speech (p : Pipeline) : Settings × Bool × List (Nat × CallStage) × History :=
  (p.settings, p.stopsClaimed, p.calls, p.history)

/-- A step that has nothing to do with announcements. -/
structure Unspoken (p q : Pipeline) : Prop where
  settings : q.settings = p.settings
  stopsClaimed : q.stopsClaimed = p.stopsClaimed
  calls : SameCalls CallStage.announces p q
  history : History.Adds (fun e => e.isAnnouncing = false) p.history q.history

namespace Unspoken

variable {p q r : Pipeline} {t : Task} {n : Nat}

theorem refl (p : Pipeline) : Unspoken p p := ⟨rfl, rfl, fun _ _ _ => .rfl, .refl _⟩

theorem trans (hpq : Unspoken p q) (hqr : Unspoken q r) : Unspoken p r :=
  ⟨hqr.settings.trans hpq.settings, hqr.stopsClaimed.trans hpq.stopsClaimed,
    fun n s hs => (hqr.calls n s hs).trans (hpq.calls n s hs), hpq.history.trans hqr.history⟩

theorem of_kept (h : CallsKept p q) : Unspoken p q :=
  ⟨h.settings, h.stopsClaimed, fun n s _ => by rw [h.calls],
    h.history.mono fun _ => Event.isAnnouncing_of_not_isCalling⟩

theorem kept (h : Unspoken p q) (hk : CallsKept q r) : Unspoken p r := h.trans (of_kept hk)

/-- Nothing is said and nothing is recorded. -/
theorem quiet (h : Unspoken p q) (hr : r.speech = q.speech) : Unspoken p r := by
  simp only [speech, Prod.mk.injEq] at hr
  obtain ⟨hs, hc, hm, hh⟩ := hr
  exact h.trans ⟨hs, hc, fun _ _ _ => by rw [hm], hh ▸ .refl _⟩

theorem record {e : Event} (h : Unspoken p q) (he : e.isAnnouncing = false) :
    Unspoken p (q.record e) :=
  h.trans ⟨rfl, rfl, fun _ _ _ => .rfl, .one he⟩

theorem reply {a : Reply} (h : Unspoken p q) (hn : ∀ s, (n, s) ∈ q.calls → s.announces = false)
    (ha : (Event.replied n a).isAnnouncing = false) : Unspoken p (q.reply n a) :=
  h.trans ⟨rfl, rfl, .leave hn rfl, .one ha⟩

theorem setCall {u : CallStage} (h : Unspoken p q)
    (hn : ∀ s, (n, s) ∈ q.calls → s.announces = false) (hu : u.announces = false) :
    Unspoken p (q.setCall n u) :=
  h.trans ⟨rfl, rfl, .setCall hn hu, .refl _⟩

theorem addCall {u : CallStage} (h : Unspoken p q) (hu : u.announces = false) :
    Unspoken p (q.addCall n u) :=
  h.trans ⟨rfl, rfl, .addCall hu, .refl _⟩

theorem launch {role : Role} (h : Unspoken p q) : Unspoken p (q.launch t role) := by
  cases role <;> exact h.trans ⟨rfl, rfl, fun _ _ _ => .rfl, .one rfl⟩

theorem afterOfferPoll {item : WorkItem} {wait : Wait} {v : Pipeline × Verdict}
    (h : Unspoken p v.1) (hn : ∀ s, (n, s) ∈ v.1.calls → s.announces = false) :
    Unspoken p (afterOfferPoll n item wait v) := by
  obtain ⟨q, v⟩ := v
  cases v with
  | failed e => exact h.reply hn rfl
  | injecting i => exact h.setCall hn rfl
  | active b =>
    exact .setCall (q := { q.releaseTracker (.call n) with intake := q.intake.join (.call n) })
      (h.quiet rfl) hn rfl

theorem afterCheckPoll {v : Pipeline × Verdict} (h : Unspoken p v.1)
    (hn : ∀ s, (n, s) ∈ v.1.calls → s.announces = false) : Unspoken p (afterCheckPoll n v) := by
  obtain ⟨q, v⟩ := v
  cases v with
  | failed e => exact h.reply hn rfl
  | injecting i => exact h.setCall hn rfl
  | active b => exact h.reply hn rfl

theorem announcement (h : Unspoken p q) : q.history.announcement = p.history.announcement :=
  h.history.ignored fun _ _ hx => Announcement.next_of_not_isAnnouncing hx _

theorem fetchStops (h : Unspoken p q) : q.history.fetchStops = p.history.fetchStops :=
  h.history.ignored fun _ h hx => History.fetchStops_of_not_isAnnouncing h hx

end Unspoken

/-- Only an announcement announces. -/
theorem CallMove.unspoken {p q : Pipeline} {n : Nat} {s : CallStage} (h : CallMove p n s q)
    (hs : s.announces = false) (hn : ∀ u, (n, u) ∈ p.calls → u.announces = false) :
    Unspoken p q := by
  have hp : Unspoken p p := .refl p
  cases h with
  | startedBefore | offerRefused | unsent | batchRefused | read => exact hp.reply hn rfl
  | launching => exact hp.setCall hn rfl
  | launchFetcher => exact .setCall hp.launch hn rfl
  | launchEmitter => exact .setCall hp.launch hn rfl
  | @opened c =>
    exact .reply
      (q := { p with
        abortable := p.allWorkers
        tracker := { p.tracker with startedAt := some p.now }
        started := true }) (hp.quiet rfl) hn rfl
  | offerAccepted => exact .kept (.setCall hp hn rfl) (.requestTracker (.refl _))
  | offerPolled =>
    have hk : CallsKept p (p.poll (.call n)).1 := .of_polled (.poll _ _)
    exact .afterOfferPoll (.of_kept hk) (by rw [hk.calls]; exact hn)
  | offerInjected hi =>
    have hk := CallsKept.injected (inject?_injected hi)
    exact .afterOfferPoll (.of_kept hk) (by rw [hk.calls]; exact hn)
  | sent =>
    refine .reply (.record ?_ rfl) hn rfl
    exact hp.quiet rfl
  | batchAdmitted hl =>
    have htested : Unspoken p (p.record (.tested n p.intake.free)) := hp.record rfl
    exact .reply (.record (htested.quiet rfl) rfl) hn rfl
  | batchExpired hl => exact .reply (hp.record rfl) hn rfl
  | batchPaused hl => exact .setCall (hp.record rfl) hn rfl
  | checked =>
    have hk : CallsKept p (p.poll (.call n)).1 := .of_polled (.poll _ _)
    exact .afterCheckPoll (.of_kept hk) (by rw [hk.calls]; exact hn)
  | checkInjected hi =>
    have hk := CallsKept.injected (inject?_injected hi)
    exact .afterCheckPoll (.of_kept hk) (by rw [hk.calls]; exact hn)
  | _ => cases hs

namespace Announced

variable {p q : Pipeline} {n : Nat} {s u : CallStage} {a : Announcement}

theorem of_same (h : Announced p a) (hset : q.settings = p.settings)
    (hclaimed : q.stopsClaimed = p.stopsClaimed) (hcalls : SameCalls CallStage.announces p q)
    (hstops : q.history.fetchStops = p.history.fetchStops) : Announced q a := by
  cases h with
  | unmade hc hs ho => exact .unmade (hclaimed.trans hc) (hstops.trans hs) (hcalls.none_iff.mpr ho)
  | @pending n s hc hm hs ho =>
    refine .pending (s := s) (hclaimed.trans hc) ?_ ?_ fun m u hm hv => ?_
    · exact (hcalls n s hs.announces).mpr hm
    · rw [hstops, hset]
      exact hs
    · exact ho m u ((hcalls m u hv).mp hm) hv
  | returned hc hs hr ho =>
    refine .returned (hclaimed.trans hc) ?_ ?_ (hcalls.none_iff.mpr ho)
    · rw [hstops, hset]
      exact hs
    · rw [hstops, hset]
      exact hr
  | abandoned hc hs ho =>
    refine .abandoned (hclaimed.trans hc) ?_ (hcalls.none_iff.mpr ho)
    rw [hstops, hset]
    exact hs

theorem of_unspoken (h : Announced p p.history.announcement) (hu : Unspoken p q) :
    Announced q q.history.announcement := by
  rw [hu.announcement]
  exact h.of_same hu.settings hu.stopsClaimed hu.calls hu.fetchStops

/-- A call that announces is the one whose announcement is pending. -/
theorem of_announces (h : Announced p a) (hx : Sections p) (hm : (n, s) ∈ p.calls)
    (hs : s.announces = true) : a = .pending n ∧ p.stopsClaimed = true ∧
      s.Sent p.settings.numClients.toNat p.history.fetchStops ∧
      ∀ m u, (m, u) ∈ p.calls → u.announces = true → m = n := by
  cases h with
  | unmade hc hz ho => exact absurd (ho n s hm) (ne_false_of_eq_true hs)
  | @pending k v hc hk hv ho =>
    obtain rfl := ho n s hm hs
    obtain rfl := hx.unique hk hm
    exact ⟨rfl, hc, hv, ho⟩
  | returned hc hz hr ho => exact absurd (ho n s hm) (ne_false_of_eq_true hs)
  | abandoned hc hz ho => exact absurd (ho n s hm) (ne_false_of_eq_true hs)

/-- The announcement goes on to its next stage. -/
theorem advance (hm : (n, s) ∈ p.calls)
    (ho : ∀ m u, (m, u) ∈ p.calls → u.announces = true → m = n) (hc : q.stopsClaimed = true)
    (hcalls : q.calls = (p.setCall n u).calls)
    (hs : u.Sent q.settings.numClients.toNat q.history.fetchStops)
    (ha : q.history.announcement = .pending n) : Announced q q.history.announcement := by
  rw [ha]
  refine .pending (s := u) hc ?_ hs fun m v hv ha => ?_
  · rw [hcalls]
    exact mem_setCall.mpr (.inl ⟨rfl, rfl, s, hm⟩)
  · rw [hcalls] at hv
    rcases mem_setCall.mp hv with ⟨rfl, -, -⟩ | ⟨-, hv⟩
    · rfl
    · exact ho m v hv ha

/-- Without its call, no announcement is left. -/
theorem alone (ho : ∀ m u, (m, u) ∈ p.calls → u.announces = true → m = n)
    (hcalls : q.calls = p.calls.filter (·.1 ≠ n)) :
    ∀ m u, (m, u) ∈ q.calls → u.announces = false := by
  intro m u hm
  rw [hcalls, List.mem_filter] at hm
  cases hu : u.announces with
  | false => rfl
  | true => exact absurd (ho m u hm.1 hu) (by simpa using hm.2)

/-- The announcement returns. -/
theorem conclude {r : Except PipelineError Unit}
    (ho : ∀ m u, (m, u) ∈ p.calls → u.announces = true → m = n) (hc : q.stopsClaimed = true)
    (hcalls : q.calls = p.calls.filter (·.1 ≠ n))
    (hs : q.history.fetchStops ≤ q.settings.numClients.toNat)
    (hr : r = .ok () → q.history.fetchStops = q.settings.numClients.toNat)
    (ha : q.history.announcement = .returned r) : Announced q q.history.announcement := by
  rw [ha]
  exact .returned hc hs hr (alone ho hcalls)

/-- The announcement takes a step. -/
theorem announcing (h : Announced p p.history.announcement) (hx : Sections p)
    (hm : (n, s) ∈ p.calls) (hs : s.announces = true) (hc : CallMove p n s q) :
    Announced q q.history.announcement := by
  obtain ⟨hann, hclaimed, hsent, ho⟩ := h.of_announces hx hm hs
  cases hc with
  | noStops held hz =>
    have hzero : p.history.fetchStops = 0 := hsent
    have hq : (p.reply n (.finished (.ok ()))).history.fetchStops =
        p.settings.numClients.toNat := by
      simpa [reply, record, release, History.fetchStops, hz] using hzero
    refine conclude (r := .ok ()) ho hclaimed rfl (Nat.le_of_eq hq) (fun _ => hq) ?_
    simp [reply, record, release, hann, Announcement.next]
  | firstStop held hpos =>
    have hzero : p.history.fetchStops = 0 := hsent
    refine advance hm ho hclaimed rfl ⟨hpos, ?_⟩ ?_
    · simpa [queueFetchStop, setCall, record, History.fetchStops] using hzero
    · simp [queueFetchStop, setCall, record, hann, Announcement.next]
  | @lastStop left deadline hslot hleft =>
    obtain ⟨hpos, hsum⟩ := hsent
    have hq : (({ p with intake := p.intake.push (.call n) .stop }.record
        (.stopQueued .fetch)).reply n (.finished (.ok ()))).history.fetchStops =
          p.settings.numClients.toNat := by
      have : p.history.fetchStops + 1 = p.settings.numClients.toNat := by omega
      simpa [reply, record, release, History.fetchStops] using this
    refine conclude (r := .ok ()) ho hclaimed rfl (Nat.le_of_eq hq) (fun _ => hq) ?_
    simp [reply, record, release, hann, Announcement.next]
  | @nextStop left deadline hslot hleft =>
    obtain ⟨hpos, hsum⟩ := hsent
    refine advance hm ho hclaimed rfl ⟨by omega, ?_⟩ ?_
    · have : p.history.fetchStops + 1 + (left - 1) = p.settings.numClients.toNat := by omega
      simpa [queueFetchStop, setCall, record, History.fetchStops] using this
    · simp [queueFetchStop, setCall, record, hann, Announcement.next]
  | stopStalled =>
    obtain ⟨hpos, hsum⟩ := hsent
    refine advance hm ho hclaimed rfl ?_ ?_
    · have : p.history.fetchStops < p.settings.numClients.toNat := by omega
      simpa [requestTracker, setCall, record, History.fetchStops, CallStage.Sent] using this
    · simp [requestTracker, setCall, record, hann, Announcement.next]
  | stalledOut =>
    refine conclude (r := .error (.stalled Cargo.fetchStop.label p.ceiling)) ho hclaimed rfl ?_
      (by simp) ?_
    · simpa [fail, abortAll, reply, record, release, History.fetchStops] using hsent.le
    · simp [fail, abortAll, reply, record, release, hann, Announcement.next, PipelineError.refuses]
  | batchAdmitted hl => cases hl <;> cases hs
  | batchExpired hl => cases hl <;> cases hs
  | batchPaused hl => cases hl <;> cases hs
  | _ => cases hs

theorem call (h : Announced p p.history.announcement) (hx : Sections p)
    (hm : (n, s) ∈ p.calls) (hc : CallMove p n s q) : Announced q q.history.announcement := by
  cases hs : s.announces with
  | true => exact h.announcing hx hm hs hc
  | false => exact h.of_unspoken (hc.unspoken hs fun u hu => hx.unique hm hu ▸ hs)

theorem next_answered {r : Except PipelineError Unit} (h : Announced p a)
    (hn : ∀ s, (n, s) ∉ p.calls)
    (hr : p.stopsClaimed = true ∨ ∃ e, r = .error e ∧ e.refuses = true) :
    (a.next (.invoked n .finish)).next (.replied n (.finished r)) = a := by
  cases h with
  | unmade hc =>
    rcases hr with hc' | ⟨e, rfl, he⟩
    · rw [hc] at hc'; cases hc'
    · simp [Announcement.next, he]
  | @pending k s hc hm =>
    have hne : n ≠ k := fun he => hn s (he ▸ hm)
    cases r <;> simp [Announcement.next, hne]
  | returned => rfl
  | abandoned => rfl

theorem next_cancelled (h : Announced p a) (hx : Sections p) (hm : (n, s) ∈ p.calls)
    (hs : s.announces = false) : a.next (.cancelled n) = a := by
  cases h with
  | @pending k u hc hu hsent =>
    have hne : n ≠ k := by
      rintro rfl
      rw [hx.unique hm hu, hsent.announces] at hs
      cases hs
    simp [Announcement.next, hne]
  | _ => rfl

/-- An announcement is refused, or comes after another one. -/
theorem answered {r : Except PipelineError Unit} {x y : Entry}
    (h : Announced p p.history.announcement) (hn : ∀ s, (n, s) ∉ p.calls)
    (hr : p.stopsClaimed = true ∨ ∃ e, r = .error e ∧ e.refuses = true)
    (hset : q.settings = p.settings) (hclaimed : q.stopsClaimed = p.stopsClaimed)
    (hcalls : q.calls = p.calls.filter (·.1 ≠ n)) (hh : q.history = y :: x :: p.history)
    (hx : x.event = .invoked n .finish) (hy : y.event = .replied n (.finished r)) :
    Announced q q.history.announcement := by
  have hann : q.history.announcement = p.history.announcement := by
    rw [hh, History.announcement_cons, History.announcement_cons, hx, hy]
    exact h.next_answered hn hr
  rw [hann]
  refine h.of_same hset hclaimed (.leave (fun s hs => absurd hs (hn s)) hcalls) ?_
  rw [hh]
  simp [History.fetchStops, hx, hy]

theorem of_unclaimed (h : Announced p a) (hc : p.stopsClaimed = false) :
    a = .unmade ∧ p.history.fetchStops = 0 ∧ ∀ n s, (n, s) ∈ p.calls → s.announces = false := by
  cases h with
  | unmade hc' hs ho => exact ⟨rfl, hs, ho⟩
  | pending hc' => rw [hc] at hc'; cases hc'
  | returned hc' => rw [hc] at hc'; cases hc'
  | abandoned hc' => rw [hc] at hc'; cases hc'

/-- The first announcement takes on the sending of the signals. -/
theorem claimed (ho : ∀ n s, (n, s) ∈ p.calls → s.announces = false)
    (hcalls : q.calls = p.calls ++ [(n, .finishing)]) (hc : q.stopsClaimed = true)
    (hs : q.history.fetchStops = 0) (ha : q.history.announcement = .pending n) :
    Announced q q.history.announcement := by
  rw [ha]
  refine .pending (s := .finishing) hc (by simp [hcalls]) hs fun m u hm hu => ?_
  rw [hcalls, List.mem_append, List.mem_singleton, Prod.mk.injEq] at hm
  rcases hm with hm | ⟨rfl, -⟩
  · rw [ho m u hm] at hu; cases hu
  · rfl

theorem invocation {r : Request} (h : Announced p p.history.announcement)
    (hn : ∀ s, (n, s) ∉ p.calls) (hi : Invocation (p.record (.invoked n r)) n r q) :
    Announced q q.history.announcement := by
  have hp : Unspoken p p := .refl p
  cases hi with
  | start | check | status =>
    exact h.of_unspoken (.kept (.addCall (hp.record rfl) rfl) (.requestTracker (.refl _)))
  | offer | batch =>
    exact h.of_unspoken (.kept (.addCall (hp.record rfl) rfl) (.requestProducer (.refl _)))
  | batchRefused | batchTooLarge | batchEmpty =>
    exact h.of_unspoken (.reply (hp.record rfl) (fun s hs => absurd hs (hn s)) rfl)
  | finishEarly => exact h.answered hn (.inr ⟨_, rfl, rfl⟩) rfl rfl rfl rfl rfl rfl
  | finishLate => exact h.answered hn (.inr ⟨_, rfl, rfl⟩) rfl rfl rfl rfl rfl rfl
  | finishAgain hs hc hf => exact h.answered hn (.inl hf) rfl rfl rfl rfl rfl rfl
  | finish hs hc hf =>
    obtain ⟨hann, hstops, ho⟩ := h.of_unclaimed hf
    refine claimed ho rfl rfl ?_ ?_
    · simpa [requestProducer, Pipeline.addCall, record, History.fetchStops] using hstops
    · simp [requestProducer, Pipeline.addCall, record, hann, Announcement.next]

/-- A call is given up. -/
theorem cancelled {x : Entry} (h : Announced p p.history.announcement) (hx : Sections p)
    (hm : (n, s) ∈ p.calls) (hset : q.settings = p.settings)
    (hclaimed : q.stopsClaimed = p.stopsClaimed) (hcalls : q.calls = p.calls.filter (·.1 ≠ n))
    (hh : q.history = x :: p.history) (he : x.event = .cancelled n) :
    Announced q q.history.announcement := by
  have hstops : q.history.fetchStops = p.history.fetchStops := by
    rw [hh]
    simp [History.fetchStops, he]
  rw [hh, History.announcement_cons, he]
  cases hs : s.announces with
  | true =>
    obtain ⟨hann, hc, hsent, ho⟩ := h.of_announces hx hm hs
    rw [hann]
    simp only [Announcement.next, ne_eq, not_true_eq_false, if_false]
    refine .abandoned (hclaimed.trans hc) ?_ (alone ho hcalls)
    rw [hstops, hset]
    exact hsent.le
  | false =>
    rw [h.next_cancelled hx hm hs]
    exact h.of_same hset hclaimed (.leave (fun u hu => hx.unique hm hu ▸ hs) hcalls) hstops

theorem move (h : Announced p p.history.announcement) (hx : Sections p) (hm : Move p q) :
    Announced q q.history.announcement := by
  cases hm with
  | invoke hn hi => exact h.invocation hn hi
  | cancel hm => exact h.cancelled hx hm rfl rfl rfl rfl rfl
  | close => exact h.of_unspoken (.of_kept (.close p))
  | drop => exact h.of_unspoken (.of_kept (.drop p))
  | tick => exact h.of_unspoken (.quiet (.refl p) rfl)
  | call hm hc => exact h.call hx hm hc
  | fetcher hw hf => exact h.of_unspoken (.of_kept hf.callsKept)
  | emitter hw he => exact h.of_unspoken (.of_kept he.callsKept)

end Announced

theorem Reaches.announced {settings : Settings} {origin : Instant} {p q : Pipeline}
    (h : p.Reaches q) (hb : build settings origin = .built p) :
    Announced q q.history.announcement := by
  refine h.invariant (I := fun r => Announced r r.history.announcement) ?_ fun r s hr ih hm =>
    ih.move (hr.sections hb) hm
  obtain ⟨-, -, rfl⟩ := build_eq_built hb
  exact .unmade rfl rfl (by simp)

end Pipeline

end DocumentPipeline
