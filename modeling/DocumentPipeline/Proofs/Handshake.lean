import DocumentPipeline.Proofs.Duties
import DocumentPipeline.Proofs.Injection
import DocumentPipeline.Proofs.Submissions

/-! # The handshake between the pools

The emit workers are told to stop once every fetch worker has finished and been collected.
Nobody places a payload after that. Only a check can come to the injection: a fetch worker
that polls has not finished, and an offer that polls has been let in before the fetch
workers were told to stop.
-/
namespace DocumentPipeline

/-- All workers of the fetch pool finished. -/
def Settings.FetchersIn (s : Settings) (l : List (Task × Ending)) : Prop :=
  ∀ i < s.numClients.toNat, (.fetcher i, .finished) ∈ l

/-- All workers of the emit pool finished. -/
def Settings.EmittersIn (s : Settings) (l : List (Task × Ending)) : Prop :=
  ∀ j < s.numEmitters.toNat, (.emitter j, .finished) ∈ l

/-- What must be on record before a stop signal is injected, and before a check says that no
worker is running. -/
def Cleared (s : Settings) : Event → History → Prop
  | .stopQueued .emit, past =>
    s.FetchersIn (past.log Event.exit) ∧ s.FetchersIn (past.log Event.collection)
  | .replied _ (.active (.ok false)), past =>
    (∀ x ∈ past, x.event.isTeardown = false) →
      s.FetchersIn (past.log Event.collection) ∧ s.EmittersIn (past.log Event.collection)
  | _, _ => True

/-- The stop signals that were put on the outtake queue. -/
def History.emitStops (h : History) : Nat := (h.log Event.outQueued).count .stop

/-- The payloads were put on the outtake queue first, then stop signals. -/
def History.PayloadsFirst (h : History) : Prop :=
  ∃ k, h.log Event.outQueued =
    (h.log Event.placement).map (fun x => .data x.2) ++ List.replicate k .stop

theorem cleared_of_not_isHandover {s : Settings} {e : Event} {past : History}
    (h : e.isHandover = false) : Cleared s e past := by
  cases e with
  | stopQueued r => cases r <;> simp_all [Cleared]
  | replied n a =>
    cases a with
    | active r => cases r <;> simp_all [Cleared]
    | _ => trivial
  | _ => trivial

namespace Pipeline

/-- How many stop signals have been injected, if no check has been given up. -/
structure Tally (p : Pipeline) : Prop where
  idle : p.tracker.emitStopSent = false → Uninjected p → p.history.emitStops = 0 ∧
    ∀ x ∈ p.history, ∀ t, x.event ≠ .handoffBegan t .emitStop
  pending : ∀ n i, (n, .checkInjecting i) ∈ p.calls →
    p.history.emitStops + i.remaining = p.settings.numEmitters.toNat
  sent : p.tracker.emitStopSent = true → p.history.emitStops = p.settings.numEmitters.toNat ∨
    p.history.emitStops ≤ p.settings.numEmitters.toNat ∧
      ∃ x ∈ p.history, ∃ t, x.event = .handoffStalled t .emitStop

/-- Where the handshake stands. -/
structure Handshake (p : Pipeline) : Prop where
  fetcher : ∀ i j, p.fetchStage? i ≠ some (.injecting j)
  offer : ∀ n item wait i, (n, .offerInjecting item wait i) ∉ p.calls
  check : ∀ n i, (n, .checkInjecting i) ∈ p.calls → p.tracker.failure = none ∧
    p.tracker.emitStopSent = false ∧ 0 < i.remaining ∧
      p.settings.FetchersIn (p.history.log Event.collection)
  cleared : History.Each (Cleared p.settings) p.history
  behind : p.history.PayloadsFirst
  counted : p.history.Persistent → Tally p

/-- A check is about to wait for the slot of a stop signal, with so many signals left. -/
structure Injects (p : Pipeline) (n r : Nat) : Prop where
  pos : 0 < r
  call : ∃ s, (n, s) ∈ p.calls
  alone : ∀ m s, (m, s) ∈ p.calls → s.isInjecting = true → m = n
  fetcher : ∀ i j, p.fetchStage? i ≠ some (.injecting j)
  failure : p.tracker.failure = none
  unsent : p.tracker.emitStopSent = false
  fetchersIn : p.settings.FetchersIn (p.history.log Event.collection)
  cleared : History.Each (Cleared p.settings) p.history
  behind : p.history.PayloadsFirst
  left : p.history.Persistent → p.history.emitStops + r = p.settings.numEmitters.toNat

/-- When all workers of a pipeline that is not closed have been counted, all of them finished. -/
theorem Tracked.all_finished_of_open {p : Pipeline} (h : Tracked p) (hs : Staffed p)
    (hopen : p.closed ≠ true) (hc : p.tracker.finished = p.settings.totalWorkers) :
    p.settings.FetchersIn (p.history.log Event.collection) ∧
      p.settings.EmittersIn (p.history.log Event.collection) := by
  have hall : ∀ t ∈ p.allWorkers, (t, .finished) ∈ p.history.log Event.collection := by
    intro t hw
    obtain ⟨e, he⟩ := h.all_collected hs hc hw
    cases e with
    | finished => exact he
    | failed err => exact absurd (h.latched (h.failing t _ he rfl)) hopen
    | panicked m => exact absurd (h.latched (h.failing t _ he rfl)) hopen
    | aborted => exact absurd (h.aborted t (h.mem_exit_of_collection he)) hopen
  constructor
  · intro i hi
    exact hall _ (by simpa [allWorkers] using hi)
  · intro j hj
    exact hall _ (by simpa [allWorkers] using hj)

/-- When all workers have been counted and nothing went wrong, all of them finished. -/
theorem Tracked.all_finished {p : Pipeline} (h : Tracked p) (hs : Staffed p)
    (hf : p.tracker.failure = none) (ht : ∀ x ∈ p.history, x.event.isTeardown = false)
    (hc : p.tracker.finished = p.settings.totalWorkers) :
    p.settings.FetchersIn (p.history.log Event.collection) ∧
      p.settings.EmittersIn (p.history.log Event.collection) := by
  refine h.all_finished_of_open hs (fun hclosed => ?_) hc
  rcases h.cause hclosed with hf' | ⟨x, hx, hd⟩
  · exact hf' hf
  · rw [ht x hx] at hd; cases hd

namespace Handshake

variable {p q : Pipeline} {n : Nat}

theorem tally (h : Handshake p) (hp : p.history.Patient) : Tally p := h.counted hp.persistent

theorem of_apart (h : Handshake p) (ha : Apart p q) : Handshake q where
  fetcher i j hi := h.fetcher i j (ha.fetchers i j hi)
  offer n item wait i hm := h.offer n item wait i ((ha.calls n _ rfl).mp hm)
  check n i hm := by
    have hm := (ha.calls n _ rfl).mp hm
    obtain ⟨hf, hs, hr, hc⟩ := h.check n i hm
    refine ⟨?_, by rw [ha.sent, hs], hr, ?_⟩
    · rcases ha.failure with hn | hsame
      · cases hn n _ hm
      · rw [hsame, hf]
    · rw [ha.settings]
      exact fun k hk => (History.log_prefix_of_suffix _ ha.suffix).subset (hc k hk)
  cleared := by
    rw [ha.settings]
    exact ha.history.each (fun e h he => cleared_of_not_isHandover he) h.cleared
  behind := by
    unfold History.PayloadsFirst
    rw [ha.outQueued, ha.placements]
    exact h.behind
  counted hp := by
    have ht := h.counted (hp.of_adds ha.history)
    have hstops : q.history.emitStops = p.history.emitStops := by
      unfold History.emitStops
      rw [ha.outQueued]
    refine ⟨fun hs hu => ?_, fun n i hm => ?_, fun hs => ?_⟩
    · obtain ⟨hz, hb⟩ := ht.idle (ha.sent ▸ hs) (ha.uninjected_iff.mp hu)
      refine ⟨hstops.trans hz, fun x hx t hxe => ?_⟩
      rcases ha.history.mem hx with hn | hx
      · rw [hxe] at hn; cases hn
      · exact hb x hx t hxe
    · rw [hstops, ha.settings]
      exact ht.pending n i ((ha.calls n _ rfl).mp hm)
    · rw [hstops, ha.settings]
      rcases ht.sent (ha.sent ▸ hs) with hz | ⟨hle, x, hx, hxe⟩
      · exact .inl hz
      · exact .inr ⟨hle, x, ha.suffix.subset hx, hxe⟩

/-- Once a stop signal is on the outtake queue, no fetch worker is left. -/
theorem fetchers_of_stop (h : Handshake p)
    (hm : .stop ∈ p.history.log Event.outQueued) :
    p.settings.FetchersIn (p.history.log Event.collection) := by
  obtain ⟨x, hx, hs⟩ := History.mem_log.mp hm
  have hev : x.event = .stopQueued .emit := by
    cases he : x.event with
    | stopQueued r => cases r <;> simp_all
    | _ => simp_all
  obtain ⟨later, past, hsplit⟩ := List.append_of_mem hx
  have hc := h.cleared.of_suffix (show x :: past <:+ p.history from ⟨later, hsplit.symm⟩)
  rw [hev] at hc
  intro k hk
  refine (History.log_prefix_of_suffix _ ?_).subset (hc.2 k hk)
  exact ⟨later ++ [x], by simp [hsplit]⟩

/-- A check without an injection of its own comes to its verdict. -/
theorem verdict {b : Bool} (h : Handshake p)
    (hn : ∀ s, (n, s) ∈ p.calls → s.isInjecting = false)
    (hb : b = false → Cleared p.settings (.replied n (.active (.ok false))) p.history) :
    Handshake (p.reply n (.active (.ok b))) where
  fetcher := h.fetcher
  offer m item wait i hm := h.offer m item wait i (mem_reply.mp hm).2
  check m i hm := by
    have hc := h.check m i (mem_reply.mp hm).2
    simpa [reply, release, record] using hc
  cleared := by
    refine ⟨?_, h.cleared⟩
    cases b with
    | true => trivial
    | false => exact hb rfl
  behind := by simpa [History.PayloadsFirst, reply, release, record] using h.behind
  counted hp := by
    have ht := h.counted hp.2
    have hstops : (p.reply n (.active (.ok b))).history.emitStops = p.history.emitStops := by
      simp [History.emitStops, reply, release, record]
    refine ⟨fun hs hu => ?_, fun m i hm => ?_, fun hs => ?_⟩
    · have hu' : Uninjected p := by
        intro m s hm
        by_cases hmn : m = n
        · subst hmn; exact hn s hm
        · exact hu m s (mem_reply.mpr ⟨hmn, hm⟩)
      obtain ⟨hz, hb⟩ := ht.idle hs hu'
      refine ⟨hstops.trans hz, fun x hx t hxe => ?_⟩
      rcases List.mem_cons.mp hx with rfl | hx
      · cases hxe
      · exact hb x hx t hxe
    · rw [hstops]
      exact ht.pending m i (mem_reply.mp hm).2
    · rw [hstops]
      rcases ht.sent hs with hz | ⟨hle, x, hx, hxe⟩
      · exact .inl hz
      · exact .inr ⟨hle, x, List.mem_cons_of_mem _ hx, hxe⟩

/-- The check joins the senders of the outtake queue. -/
theorem await {t : Task} {r : Nat} {i : Injection} (h : Injects p n r) (hi : i.remaining = r) :
    Handshake ((p.queueEmitStop t r).1.setCall n (.checkInjecting i)) := by
  have hlog : ((p.queueEmitStop t r).1.setCall n (.checkInjecting i)).history =
      ⟨p.now, .handoffBegan t .emitStop⟩ :: p.history := rfl
  have hsettings : ((p.queueEmitStop t r).1.setCall n (.checkInjecting i)).settings =
      p.settings := rfl
  have hsent : ((p.queueEmitStop t r).1.setCall n (.checkInjecting i)).tracker.emitStopSent =
      false := h.unsent
  have hown : ∀ m s, (m, s) ∈ ((p.queueEmitStop t r).1.setCall n (.checkInjecting i)).calls →
      s.isInjecting = true → s = .checkInjecting i := by
    intro m s hm hs
    rcases mem_setCall.mp hm with ⟨-, rfl, -⟩ | ⟨hne, hm⟩
    · rfl
    · exact absurd (h.alone m s hm hs) hne
  constructor
  · exact h.fetcher
  · intro m item wait j hm
    cases hown m _ hm rfl
  · intro m j hm
    cases hown m _ hm rfl
    refine ⟨h.failure, hsent, hi ▸ h.pos, ?_⟩
    rw [hlog, hsettings]
    simpa using h.fetchersIn
  · exact ⟨trivial, h.cleared⟩
  · rw [hlog]
    simpa [History.PayloadsFirst] using h.behind
  · intro hp
    have hleft := h.left hp.2
    refine ⟨fun _ hu => ?_, fun m j hm => ?_, fun hs => ?_⟩
    · obtain ⟨s, hs⟩ := h.call
      cases hu n _ (mem_setCall.mpr (.inl ⟨rfl, rfl, s, hs⟩))
    · cases hown m _ hm rfl
      rw [hlog, hsettings, hi]
      simpa [History.emitStops] using hleft
    · rw [hsent] at hs
      cases hs

/-- The injecting check returns. -/
theorem ended {x : Entry} {a : Reply} (h : Handshake p) (past : History)
    (hcalls : ∀ m s, (m, s) ∈ p.calls → s.isInjecting = true → m = n)
    (hc : q.calls = p.calls.filter (·.1 ≠ n)) (hset : q.settings = p.settings)
    (hf : ∀ i, q.fetchStage? i = p.fetchStage? i) (hsent : q.tracker.emitStopSent = true)
    (hh : q.history = x :: past) (hx : x.event = .replied n a)
    (hxc : Cleared p.settings x.event past)
    (hcleared : History.Each (Cleared p.settings) past) (hbehind : past.PayloadsFirst)
    (htally : past.Persistent → past.emitStops = p.settings.numEmitters.toNat ∨
      past.emitStops ≤ p.settings.numEmitters.toNat ∧
        ∃ x ∈ past, ∃ t, x.event = .handoffStalled t .emitStop) : Handshake q := by
  have hnone : Uninjected q := by
    intro m s hm
    rw [hc, List.mem_filter] at hm
    cases hs : s.isInjecting with
    | false => rfl
    | true => exact absurd (hcalls m s hm.1 hs) (by simpa using hm.2)
  have hout : q.history.log Event.outQueued = past.log Event.outQueued := by simp [hh, hx]
  constructor
  · intro i j
    rw [hf]
    exact h.fetcher i j
  · intro m item wait i hm
    cases hnone m _ hm
  · intro m i hm
    cases hnone m _ hm
  · rw [hset, hh]
    exact ⟨hxc, hcleared⟩
  · simpa [History.PayloadsFirst, hh, hx] using hbehind
  · intro hp
    refine ⟨fun hs _ => ?_, fun m i hm => ?_, fun _ => ?_⟩
    · rw [hsent] at hs; cases hs
    · cases hnone m _ hm
    · rw [hh] at hp
      unfold History.emitStops at htally ⊢
      rw [hset, hout]
      rcases htally hp.2 with hz | ⟨hle, y, hy, hye⟩
      · exact .inl hz
      · exact .inr ⟨hle, y, by rw [hh]; exact List.mem_cons_of_mem _ hy, hye⟩

/-- The signal of an injecting check gets its slot. -/
theorem push {i : Injection} {past : History} (h : Handshake p) (ht : Tracked p)
    (hm : (n, .checkInjecting i) ∈ p.calls)
    (hp : past = ⟨p.now, .stopQueued .emit⟩ :: p.history) :
    History.Each (Cleared p.settings) past ∧ past.PayloadsFirst ∧
    (past.Persistent → past.emitStops + (i.remaining - 1) = p.settings.numEmitters.toNat) := by
  subst hp
  obtain ⟨-, -, hpos, hin⟩ := h.check n i hm
  refine ⟨⟨⟨fun k hk => ht.mem_exit_of_collection (hin k hk), hin⟩, h.cleared⟩, ?_, fun hp => ?_⟩
  · obtain ⟨k, hk⟩ := h.behind
    exact ⟨k + 1, by simp [hk, List.replicate_succ']⟩
  · have := (h.counted hp.2).pending n i hm
    simp only [History.emitStops, History.log_cons, Event.outQueued, List.count_append,
      List.count_singleton_self] at this ⊢
    omega

end Handshake

variable {p q : Pipeline} {n i : Nat} {s : CallStage}

/-- When all fetch workers finished and have been collected, the tracker has counted them. -/
theorem Roster.fetchFinished_eq (h : Roster p) (hs : Staffed p)
    (hin : p.settings.FetchersIn (p.history.log Event.collection)) :
    p.tracker.fetchFinished = p.settings.numClients.toNat := by
  have hcount := h.pool_counted .fetch hs h.collected_nodup (fun _ => h.mem_exit_of_collection)
  rw [h.fetchFinished, hcount (by simpa [pool, Settings.FetchersIn] using hin)]
  simp [pool]

theorem Roster.emitFinished_eq (h : Roster p) (hs : Staffed p)
    (hin : p.settings.EmittersIn (p.history.log Event.collection)) :
    p.tracker.emitFinished = p.settings.numEmitters.toNat := by
  have hcount := h.pool_counted .emit hs h.collected_nodup (fun _ => h.mem_exit_of_collection)
  rw [h.emitFinished, hcount (by simpa [pool, Settings.EmittersIn] using hin)]
  simp [pool]

/-- A poll that counts all fetch workers as finished has them on record. -/
theorem fetchersIn_of_collect (ht : Tracked p) (hs : Staffed p) (hc : p.collect = (q, none))
    (hn : q.tracker.fetchFinished = q.settings.numClients.toNat) :
    q.settings.FetchersIn (q.history.log Event.collection) := by
  have hq : Staffed q := hs.of_kept (.of_polled (.of_collect hc))
  exact fun k hk => (ht.collect hc).toRoster.fetchers_finished hq hn hk

/-- A fetch worker that has not ended does not come to the injection. -/
theorem not_injecting_of_fetcher {w : FetchStage} {t : Task} {j : Injection} (ht : Tracked p)
    (hs : Staffed p) (hst : p.fetchStage? i = some w) (hw : w ≠ .exited) :
    ¬ PollResult p t (q, .injecting j) := by
  intro hr
  generalize hx : (q, Verdict.injecting j) = x at hr
  cases hr with
  | @injecting r _ _ hc hn =>
    have hlen : i < p.settings.numClients.toNat := by
      obtain ⟨u, hu, -⟩ := Option.map_eq_some_iff.mp hst
      exact Nat.lt_of_lt_of_le (List.getElem?_eq_some_iff.mp hu).1 hs.fetchers_le
    have hp : Polled p r := .of_collect hc
    have hm := fetchersIn_of_collect ht hs hc hn i (by rw [hp.settings]; exact hlen)
    have hg : r.fetchStage? i = some .exited :=
      (ht.collect hc).gone _ _ ((ht.collect hc).mem_exit_of_collection hm)
    rw [hp.fetchStage, hst] at hg
    exact hw (Option.some.inj hg)
  | notStarted | latched | failed | noEmitters | active => cases hx

theorem uninjected_of_held (hx : Sections p) (hm : (n, s) ∈ p.calls)
    (held : p.trackerLock.heldBy (.call n) = true) (hs : s.isInjecting = false) :
    Uninjected p := by
  intro m u hu
  cases hi : u.isInjecting with
  | false => rfl
  | true =>
    obtain ⟨rfl, rfl⟩ := hx.tracker_unique hm hu held (CallStage.holdsTracker_of_isInjecting hi)
    rw [hi] at hs
    cases hs

theorem uninjected_of_free (hx : Sections p) (hf : p.trackerLock.isFree = true) :
    Uninjected p := by
  intro m u hu
  cases hi : u.isInjecting with
  | false => rfl
  | true =>
    have held := hx.tracker m u hu (CallStage.holdsTracker_of_isInjecting hi)
    simp_all [Lock.isFree, Lock.heldBy]

/-- The stage of a call is its only one. -/
theorem Sections.not_injecting (hx : Sections p) (hm : (n, s) ∈ p.calls)
    (hs : s.isInjecting = false) : ∀ u, (n, u) ∈ p.calls → u.isInjecting = false := by
  intro u hu
  rw [← hx.unique hm hu]
  exact hs

namespace Handshake

theorem tryPoll {w : Fetcher} {stage : FetchStage} (h : Handshake p) (ht : Tracked p)
    (hs : Staffed p) (hx : Sections p) (hpos : 0 < p.settings.numEmitters.toNat)
    (hst : p.fetchStage? i = some stage) (hne : stage ≠ .exited) :
    Handshake (p.tryPoll i w) := by
  have hq : Apart p (p.requestTracker (.fetcher i)) := .requestTracker (.refl p)
  refine h.of_apart ?_
  unfold Pipeline.tryPoll
  dsimp only
  split
  · next hf =>
    have hn : Uninjected (p.requestTracker (.fetcher i)) :=
      hq.uninjected_iff.mpr (uninjected_of_free hx hf)
    have ht' : Tracked (p.requestTracker (.fetcher i)) :=
      ht.call_of_steady (n := 0) (.quiet (.refl p) rfl)
    have hr := poll_result (p.requestTracker (.fetcher i)) (.fetcher i)
    generalize (p.requestTracker (.fetcher i)).poll (.fetcher i) = v at hr
    obtain ⟨q, v⟩ := v
    cases v with
    | failed e => exact (hq.trans (.poll hn hpos hr (by simp))).endFetcher
    | active b => exact (hq.trans (.poll hn hpos hr (by simp))).releaseTracker.queueFetcher
    | injecting j => exact absurd hr (not_injecting_of_fetcher ht' hs.requestTracker hst hne)
  · exact .queueFetcher (.refl p)

theorem invocation {r : Request} (h : Handshake p) (hn : ∀ s, (n, s) ∉ p.calls)
    (hi : Invocation p n r q) : Handshake q := by
  have hp : Apart p p := .refl p
  have hno : ∀ s, (n, s) ∈ p.calls → s.isInjecting = false := fun s hs => absurd hs (hn s)
  refine h.of_apart ?_
  cases hi with
  | start | check | status => exact .requestTracker (hp.addCall rfl)
  | offer | batch => exact .requestProducer (hp.addCall rfl)
  | batchRefused | batchTooLarge | batchEmpty | finishEarly | finishLate => exact hp.reply hno rfl
  | finishAgain => exact .reply (q := { p with shuttingDown := true }) (hp.quiet rfl) hno rfl
  | finish =>
    exact .requestProducer
      (.addCall (q := { p with shuttingDown := true, stopsClaimed := true }) (hp.quiet rfl) rfl)

theorem afterOfferPoll {item : WorkItem} {wait : Wait} {v : Pipeline × Verdict}
    (ha : Apart p v.1) (hno : ∀ s, (n, s) ∈ v.1.calls → s.isInjecting = false)
    (hv : ∀ i, v.2 ≠ .injecting i) : Apart p (afterOfferPoll n item wait v) := by
  obtain ⟨q, v⟩ := v
  cases v with
  | failed e => exact ha.reply hno rfl
  | active b =>
    exact .setCall (q := { q.releaseTracker (.call n) with intake := q.intake.join (.call n) })
      (ha.quiet rfl) hno rfl
  | injecting i => exact absurd rfl (hv i)

/-- A check polls. If all fetch workers have been collected by now, it begins to inject. -/
theorem checkPoll (h : Handshake p) (ht : Tracked p) (hs : Staffed p) (hx : Sections p)
    (hpos : 0 < p.settings.numEmitters.toNat) (hm : (n, .checking) ∈ p.calls)
    (held : p.trackerLock.heldBy (.call n) = true) :
    Handshake (afterCheckPoll n (p.poll (.call n))) := by
  have hn := uninjected_of_held hx hm held rfl
  have hr := poll_result p (.call n)
  have hno := hx.not_injecting hm rfl
  generalize p.poll (.call n) = v at hr
  cases hr with
  | notStarted => exact h.of_apart (.reply (.refl p) hno rfl)
  | latched => exact h.of_apart (.reply (.refl p) hno rfl)
  | @failed q f _ _ hc =>
    have ha : Apart p q := .collect hn hc
    exact h.of_apart (ha.reply (by rw [(Polled.of_collect hc).calls]; exact hno) rfl)
  | @injecting q _ hf hc hcount hsent hp =>
    have ha : Apart p q := .collect hn hc
    have hq := h.of_apart ha
    have hcalls := (Polled.of_collect hc).calls
    refine await (i := ⟨q.settings.numEmitters.toNat, q.now + q.ceiling⟩)
      ⟨hp, ?_, ?_, hq.fetcher, ?_, hsent, fetchersIn_of_collect ht hs hc hcount, hq.cleared,
        hq.behind, ?_⟩ rfl
    · exact ⟨.checking, by rw [hcalls]; exact hm⟩
    · intro m s hms hsi
      have := ha.uninjected_iff.mpr hn m s hms
      rw [hsi] at this
      cases this
    · rw [(collects_of_collect hc).failure, hf]
    · intro hpat
      have := ((hq.counted hpat).idle hsent (ha.uninjected_iff.mpr hn)).1
      omega
  | @noEmitters q _ _ hc hz =>
    rw [(Polled.of_collect hc).settings] at hz
    omega
  | @active q _ hf hc hcount =>
    have ha : Apart p q := .collect hn hc
    have hq := h.of_apart ha
    refine hq.verdict (by rw [(Polled.of_collect hc).calls]; exact hno) fun hb htear => ?_
    have hq' : Staffed q := hs.of_kept (.of_polled (.of_collect hc))
    refine (ht.collect hc).all_finished hq' ?_ htear (by simpa using hb)
    rw [(collects_of_collect hc).failure, hf]

/-- An injecting check goes on, comes to its end or stalls. -/
theorem checkInject {i : Injection} {v : Pipeline × Verdict} (h : Handshake p) (ht : Tracked p)
    (hs : Staffed p) (hx : Sections p) (hm : (n, .checkInjecting i) ∈ p.calls)
    (hi : Injected p (.call n) i v) : Handshake (afterCheckPoll n v) := by
  obtain ⟨hf, hsent, hpos, hin⟩ := h.check n i hm
  have alone : ∀ m s, (m, s) ∈ p.calls → s.isInjecting = true → m = n := fun m s hms hsi =>
    (hx.tracker_unique hm hms (hx.tracker n _ hm rfl)
      (CallStage.holdsTracker_of_isInjecting hsi)).1
  cases hi with
  | last hslot hr =>
    obtain ⟨hcleared, hbehind, hstops⟩ := h.push ht hm rfl
    refine h.ended (⟨p.now, .stopQueued .emit⟩ :: p.history) alone rfl rfl (fun _ => rfl) rfl rfl
      rfl ?_ hcleared hbehind fun hp => .inl ?_
    · by_cases hcount : p.tracker.finished = p.settings.totalWorkers
      · have hdone := fun htear => ht.all_finished hs hf htear hcount
        simpa [Cleared, record, hcount] using hdone
      · simp [Cleared, record, hcount]
    · have := hstops hp
      omega
  | next hslot hr =>
    obtain ⟨hcleared, hbehind, hstops⟩ := h.push ht hm rfl
    refine await (i := ⟨i.remaining - 1, _⟩) ⟨by omega, ⟨_, hm⟩, alone, h.fetcher, hf, hsent, ?_,
      hcleared, hbehind, hstops⟩ rfl
    simpa [record] using hin
  | @stalled q f hslot hd hq hf =>
    subst hq hf
    refine h.ended (⟨p.now, .latched (.stalled Cargo.emitStop.label p.ceiling)⟩ ::
        ⟨p.now, .handoffStalled (.call n) .emitStop⟩ :: p.history) alone rfl rfl (fun k => ?_) rfl
      rfl rfl trivial ⟨trivial, trivial, h.cleared⟩ ?_ fun hp =>
        .inr ⟨?_, _, List.mem_cons_of_mem _ List.mem_cons_self, _, rfl⟩
    · exact (Polled.abortAll p).fetchStage k
    · simpa [History.PayloadsFirst] using h.behind
    · have := (h.counted hp.2.2).pending n i hm
      have hle : p.history.emitStops ≤ p.settings.numEmitters.toNat := by omega
      simpa [History.emitStops] using hle

end Handshake

section Runs

variable {settings : Settings} {origin : Instant} {p₀ : Pipeline}

theorem Reaches.numClients_pos (h : p₀.Reaches p) (hb : build settings origin = .built p₀) :
    0 < p.settings.numClients.toNat := by
  obtain ⟨hv, -, rfl⟩ := build_eq_built hb
  rw [h.settings]
  have := ((Settings.validate_eq_ok_iff _).mp hv).2.1
  rw [Nat.pos_iff_ne_zero]
  exact fun hz => this (UInt64.toNat_inj.mp (by simpa using hz))

theorem Reaches.numEmitters_pos (h : p₀.Reaches p) (hb : build settings origin = .built p₀) :
    0 < p.settings.numEmitters.toNat := by
  obtain ⟨hv, -, rfl⟩ := build_eq_built hb
  rw [h.settings]
  have := ((Settings.validate_eq_ok_iff _).mp hv).2.2.1
  rw [Nat.pos_iff_ne_zero]
  exact fun hz => this (UInt64.toNat_inj.mp (by simpa using hz))

/-- While a submission may still be admitted, not all fetch workers have finished. -/
theorem Reaches.not_fetchersIn_of_admits (h : p₀.Reaches p)
    (hb : build settings origin = .built p₀) (hm : (n, s) ∈ p.calls) (ha : s.admits = true) :
    ¬ p.settings.FetchersIn (p.history.log Event.exit) := by
  intro hin
  have hreceived := h.fetcher_stopped hb (hin 0 (h.numClients_pos hb))
  have hstop : .stop ∈ p.history.log Event.enqueued := by
    rw [(h.balanced hb).intake]
    exact List.mem_append_left _ (List.mem_map_of_mem (f := Prod.snd) hreceived)
  have := ((h.ordered hb).sealed hstop).2 n s hm
  rw [ha] at this
  cases this

/-- An offer does not come to the injection. -/
theorem not_injecting_of_offer {t : Task} {j : Injection} (h : p₀.Reaches p)
    (hb : build settings origin = .built p₀) (hm : (n, s) ∈ p.calls) (ha : s.admits = true) :
    ¬ PollResult p t (q, .injecting j) := by
  intro hr
  generalize hx : (q, Verdict.injecting j) = x at hr
  cases hr with
  | @injecting r _ _ hc hn =>
    have hin := fetchersIn_of_collect (h.tracked hb) (h.staffed hb) hc hn
    have hp : Polled p r := .of_collect hc
    refine h.not_fetchersIn_of_admits hb hm ha fun k hk => ?_
    have hm := ((h.tracked hb).collect hc).mem_exit_of_collection (hin k (by rwa [hp.settings]))
    rwa [hp.log (fun e he => by cases e <;> simp_all)] at hm
  | notStarted | latched | failed | noEmitters | active => cases hx

namespace Handshake

theorem call (h : Handshake p) (hr : p₀.Reaches p) (hb : build settings origin = .built p₀)
    (hm : (n, s) ∈ p.calls) (hc : CallMove p n s q) : Handshake q := by
  have hx := hr.sections hb
  have hp : Apart p p := .refl p
  cases hc with
  | startedBefore | offerRefused | unsent | batchRefused | noStops | read =>
    exact h.of_apart (hp.reply (hx.not_injecting hm rfl) rfl)
  | launching => exact h.of_apart (hp.setCall (hx.not_injecting hm rfl) rfl)
  | launchFetcher => exact h.of_apart (.setCall hp.launch (hx.not_injecting hm rfl) rfl)
  | launchEmitter => exact h.of_apart (.setCall hp.launch (hx.not_injecting hm rfl) rfl)
  | @opened c =>
    have ho : Apart p
        { p with
          abortable := p.allWorkers
          tracker := { p.tracker with startedAt := some p.now }
          started := true } :=
      ⟨rfl, rfl, .inr rfl, fun _ _ hi => hi, fun _ _ _ => .rfl, .refl _⟩
    exact h.of_apart (ho.reply (hx.not_injecting hm rfl) rfl)
  | offerAccepted => exact h.of_apart (.requestTracker (hp.setCall (hx.not_injecting hm rfl) rfl))
  | @offerPolled item wait held =>
    have hn := uninjected_of_held hx hm held rfl
    have hcalls := (Polled.poll p (.call n)).calls
    have hpoll := poll_result p (.call n)
    generalize hv : p.poll (.call n) = v at hpoll hcalls
    obtain ⟨r, v⟩ := v
    have hno : ∀ i, v ≠ .injecting i := by
      rintro i rfl
      exact not_injecting_of_offer hr hb hm rfl hpoll
    refine h.of_apart (afterOfferPoll (.poll hn (hr.numEmitters_pos hb) hpoll hno) ?_ hno)
    rw [hcalls]
    exact hx.not_injecting hm rfl
  | offerInjected => exact absurd hm (h.offer n _ _ _)
  | sent | lastStop =>
    refine h.of_apart (.reply (.record ?_ rfl) (hx.not_injecting hm rfl) rfl)
    exact hp.quiet rfl
  | batchAdmitted hl =>
    have htested : Apart p (p.record (.tested n p.intake.free)) := hp.record rfl
    refine h.of_apart (.reply (.record (htested.quiet rfl) rfl) ?_ rfl)
    exact hx.not_injecting hm (by cases hl <;> rfl)
  | batchExpired hl =>
    exact h.of_apart (.reply (hp.record rfl) (hx.not_injecting hm (by cases hl <;> rfl)) rfl)
  | batchPaused hl =>
    exact h.of_apart (.setCall (hp.record rfl) (hx.not_injecting hm (by cases hl <;> rfl)) rfl)
  | firstStop =>
    refine h.of_apart (.setCall (.record ?_ rfl) (hx.not_injecting hm rfl) rfl)
    exact hp.quiet rfl
  | nextStop =>
    have hpush : Apart p
        ({ p with intake := p.intake.push (.call n) .stop }.record (.stopQueued .fetch)) :=
      .record (hp.quiet rfl) rfl
    refine h.of_apart (.setCall (.record ?_ rfl) (hx.not_injecting hm rfl) rfl)
    exact hpush.quiet rfl
  | stopStalled =>
    refine h.of_apart (.requestTracker (.setCall (.record ?_ rfl) (hx.not_injecting hm rfl) rfl))
    exact hp.quiet rfl
  | stalledOut held =>
    have hf : Apart p (p.fail (.stalled Cargo.fetchStop.label p.ceiling)) :=
      hp.fail (uninjected_of_held hx hm held rfl)
    exact h.of_apart (hf.reply (hx.not_injecting hm rfl) rfl)
  | checked held =>
    exact h.checkPoll (hr.tracked hb) (hr.staffed hb) hx (hr.numEmitters_pos hb) hm held
  | checkInjected hi =>
    exact h.checkInject (hr.tracked hb) (hr.staffed hb) hx hm (inject?_injected hi)

/-- Nothing is told of the other parties, so all that a fetch worker needs for its poll stays
as it was. -/
theorem finishItem {w : Fetcher} {item : WorkItem} {o : Outcome} {since : Nat}
    {stage : FetchStage} (h : Handshake p) (ht : Tracked p) (hs : Staffed p) (hx : Sections p)
    (hpos : 0 < p.settings.numEmitters.toNat) (hst : p.fetchStage? i = some stage)
    (hne : stage ≠ .exited) : Handshake (p.finishItem i w item o since) := by
  have hk : CallsKept p (p.record (.reported i item o (p.now - since))) := .record (.refl p) rfl
  have hy : Steady (.call 0) p (p.record (.reported i item o (p.now - since))) :=
    .record (.refl p) rfl
  have ha : Apart p (p.record (.reported i item o (p.now - since))) := .record (.refl p) rfl
  refine tryPoll (p := { p.record _ with totalProcessed := _ }) (h.of_apart (ha.quiet rfl))
    (ht.call_of_steady (hy.quiet rfl)) ?_ (hx.of_same rfl rfl rfl id fun _ => rfl) hpos hst hne
  exact { hs.of_kept hk with }

/-- A payload is placed by a worker that has not ended, so no signal is on the queue. -/
theorem place {payload : Payload} {outtake : Queue Payload} (h : Handshake p) (ht : Tracked p)
    (hs : Staffed p) {stage : FetchStage} (hst : p.fetchStage? i = some stage)
    (hne : stage ≠ .exited) :
    Handshake ({ p with outtake }.record (.payloadQueued i payload)) where
  fetcher := h.fetcher
  offer := h.offer
  check m j hm := by simpa [record] using h.check m j hm
  cleared := ⟨trivial, h.cleared⟩
  behind := by
    obtain ⟨k, hk⟩ := h.behind
    have hzero : k = 0 := by
      by_contra hpos
      have hlen : i < p.settings.numClients.toNat := by
        obtain ⟨u, hu, -⟩ := Option.map_eq_some_iff.mp hst
        exact Nat.lt_of_lt_of_le (List.getElem?_eq_some_iff.mp hu).1 hs.fetchers_le
      have hin := h.fetchers_of_stop (hk ▸ List.mem_append_right _ (by simp [hpos]))
      have hg := ht.gone _ _ (ht.mem_exit_of_collection (hin i hlen))
      rw [show p.fetchStage? i = some .exited from hg] at hst
      exact hne (Option.some.inj hst).symm
    subst hzero
    exact ⟨0, by simpa [record] using hk⟩
  counted hp := by
    have ht := h.counted hp.2
    have hstops : ({ p with outtake }.record (.payloadQueued i payload)).history.emitStops =
        p.history.emitStops := by
      simp [History.emitStops, record]
    refine ⟨fun hs hu => ?_, fun m j hm => ?_, fun hs => ?_⟩
    · obtain ⟨hz, hb⟩ := ht.idle hs hu
      refine ⟨hstops.trans hz, fun x hx t hxe => ?_⟩
      rcases List.mem_cons.mp hx with rfl | hx
      · cases hxe
      · exact hb x hx t hxe
    · rw [hstops]
      exact ht.pending m j hm
    · rw [hstops]
      rcases ht.sent hs with hz | ⟨hle, x, hx, hxe⟩
      · exact .inl hz
      · exact .inr ⟨hle, x, List.mem_cons_of_mem _ hx, hxe⟩

theorem fetcher_move {w : Fetcher} (h : Handshake p) (hr : p₀.Reaches p)
    (hb : build settings origin = .built p₀) (hw : p.fetchers[i]? = some w)
    (hf : FetcherMove p i w q) : Handshake q := by
  have hst : p.fetchStage? i = some w.stage := by simp [fetchStage?, hw]
  have ht := hr.tracked hb
  have hs := hr.staffed hb
  have hx := hr.sections hb
  have hpos := hr.numEmitters_pos hb
  have hp : Apart p p := .refl p
  have hc : Steady (.call 0) p p := .refl p
  cases hf with
  | abort | notCreated => exact h.of_apart hp.endFetcher
  | create | acquire => exact h.of_apart (hp.setFetcher (by simp))
  | created => exact h.of_apart (.queueFetcher (hp.record rfl))
  | @receiveStop d ms =>
    have hr : Apart p
        ({ p with intake := { p.intake with messages := ms } }.record (.received i .stop)) :=
      .record (hp.quiet rfl) rfl
    exact h.of_apart (.endFetcher (hr.quiet rfl))
  | @receiveItem d item ms =>
    have hr : Apart p
        ({ p with intake := { p.intake with messages := ms } }.record (.received i (.data item))) :=
      .record (hp.quiet rfl) rfl
    exact h.of_apart (.record (.setFetcher (hr.quiet rfl) (by simp)) rfl)
  | idle hst' =>
    have hne : w.stage ≠ .exited := by simp [hst']
    exact tryPoll (p := { p with intakeLock := _ }) (h.of_apart (hp.quiet rfl))
      (ht.call_of_steady (hc.quiet rfl)) { hs with } (hx.of_same rfl rfl rfl id fun _ => rfl)
      hpos hst hne
  | @handOver item since r payload =>
    have hr : Apart p (p.record (.processEnded i item r)) := hp.record rfl
    exact h.of_apart (.setFetcher (.record (hr.quiet rfl) rfl) (by simp))
  | @settle item since r outcome hst' =>
    have hr : Apart p (p.record (.processEnded i item r)) := hp.record rfl
    have hk : CallsKept p (p.record (.processEnded i item r)) := .record (.refl p) rfl
    exact (h.of_apart hr).finishItem (ht.call_of_steady (hc.record rfl)) (hs.of_kept hk)
      (hx.of_kept hk) hpos hst (by simp [hst'])
  | lose => exact h.of_apart (.endFetcher (hp.record rfl))
  | @handed item payload since d hst' =>
    have hne : w.stage ≠ .exited := by simp [hst']
    refine finishItem (h.place ht hs hst hne) (ht.call_of_steady (.record (hc.quiet rfl) rfl))
      ?_ ?_ hpos hst hne
    · exact hs.of_same rfl rfl rfl rfl fun _ _ => .rfl
    · exact hx.of_same rfl rfl rfl id fun _ => rfl
  | stalled =>
    refine h.of_apart (.endFetcher (.record ?_ rfl))
    exact hp.quiet rfl
  | injected hst' =>
    rw [hst'] at hst
    exact absurd hst (h.fetcher i _)

theorem emitter_move {j : Nat} {w : EmitWorker} (h : Handshake p) (he : EmitterMove p j w q) :
    Handshake q := by
  have hp : Apart p p := .refl p
  refine h.of_apart ?_
  cases he with
  | abort => exact hp.endEmitter
  | queue | acquire => exact hp.quiet rfl
  | takeStop => exact .endEmitter (.record (hp.quiet rfl) rfl)
  | @takePayload payload ms =>
    have hr : Apart p
        ({ p with
            outtake := { p.outtake with messages := ms }
            outtakeLock := p.outtakeLock.release (.emitter j) }.record
          (.taken j (.data payload))) :=
      .record (hp.quiet rfl) rfl
    exact .record (hr.quiet rfl) rfl
  | @delivered payload r =>
    have hr : Apart p (p.record (.emitEnded j payload r)) := hp.record rfl
    exact hr.quiet rfl
  | failed => exact .endEmitter (hp.record rfl)

theorem move (h : Handshake p) (hr : p₀.Reaches p) (hb : build settings origin = .built p₀)
    (hm : Move p q) : Handshake q := by
  have hp : Apart p p := .refl p
  cases hm with
  | @invoke n r q hn hi =>
    have hinvoked : Apart p (p.record (.invoked n r)) := hp.record rfl
    exact invocation (h.of_apart hinvoked) hn hi
  | @cancel n stage hm hs =>
    refine ⟨h.fetcher, fun m item wait i hm => ?_, fun m i hm => ?_, ⟨trivial, h.cleared⟩, ?_, ?_⟩
    · exact h.offer m item wait i (List.mem_filter.mp hm).1
    · simpa [record, release] using h.check m i (List.mem_filter.mp hm).1
    · simpa [History.PayloadsFirst, record, release] using h.behind
    · intro hpat
      -- a call that injects is not given up by a persistent caller
      have hno : stage.isInjecting = false := by
        cases hs : stage with
        | offerInjecting item wait i => exact absurd (hs ▸ hm) (h.offer n item wait i)
        | checkInjecting i =>
          obtain ⟨r, hreq, hserves⟩ := (hr.sections hb).request n stage hm
          subst hs
          obtain rfl : r = .checkActive := hserves
          have hkept : History.deserts (.cancelled n) p.history = false := hpat.1
          simp [History.deserts, hreq] at hkept
        | _ => rfl
      have hleave := (hr.sections hb).not_injecting hm hno
      have hleft : Apart p ({ p.release (.call n) with
          calls := p.calls.filter (·.1 ≠ n) }.record (.cancelled n)) :=
        hp.leave hleave rfl rfl rfl rfl rfl rfl
      exact (h.of_apart hleft).counted hpat
  | close =>
    unfold Pipeline.close
    refine h.of_apart (.record ?_ rfl)
    split
    · exact hp
    · exact hp.abortAll
  | drop => exact h.of_apart (.record hp.abortAll rfl)
  | tick => exact h.of_apart (hp.quiet rfl)
  | call hm hc => exact h.call hr hb hm hc
  | fetcher hw hf => exact h.fetcher_move hr hb hw hf
  | emitter hw he => exact h.emitter_move he

end Handshake

theorem handshake_of_build (hb : build settings origin = .built p) : Handshake p := by
  obtain ⟨-, -, rfl⟩ := build_eq_built hb
  constructor
  · simp [fetchStage?]
  · simp
  · simp
  · trivial
  · exact ⟨0, rfl⟩
  · intro _
    constructor
    · intro _ _
      exact ⟨rfl, by simp⟩
    · simp
    · simp

theorem Reaches.handshake (h : p₀.Reaches p) (hb : build settings origin = .built p₀) :
    Handshake p := by
  exact h.invariant (handshake_of_build hb) fun r s hr ih hm => ih.move hr hb hm

end Runs

end Pipeline

end DocumentPipeline
