import DocumentPipeline.Proofs.Drain
import DocumentPipeline.Proofs.Failures
import DocumentPipeline.Proofs.Lines
import DocumentPipeline.Proofs.Shutdown

/-! # When no worker is running any more

A check that says that no worker is running is right: every worker has ended by then, and none
with a failure. If nothing tore the pipeline down, all of them finished on their stop signals, and
nothing that can happen later calls a worker back, latches a failure or makes another check say
anything else. The queues are empty then, but for stop signals that a check put on the outtake
queue before its caller gave it up, and that the next check sent again.
-/
namespace DocumentPipeline

/-- If each of so many workers took a stop signal, that many signals were taken. -/
theorem le_count_stop {α : Type} [DecidableEq α] {l : List (Nat × Message α)} {n : Nat}
    (h : ∀ i < n, (i, .stop) ∈ l) : n ≤ (l.map Prod.snd).count .stop := by
  have hnodup : ((List.range n).map fun i => (i, (.stop : Message α))).Nodup :=
    List.nodup_range.map fun i j hij => congrArg Prod.fst hij
  have hsub : ((List.range n).map fun i => (i, (.stop : Message α))) ⊆ l := by
    intro x hx
    obtain ⟨i, hi, rfl⟩ := List.mem_map.mp hx
    exact h i (List.mem_range.mp hi)
  obtain ⟨m, hperm, hm⟩ := List.subperm_of_subset hnodup hsub
  calc n = (((List.range n).map fun i => (i, (.stop : Message α))).map Prod.snd).count .stop := by
        simp [Function.comp_def]
    _ = (m.map Prod.snd).count .stop := (hperm.map Prod.snd).symm.count_eq _
    _ ≤ (l.map Prod.snd).count .stop := (hm.map Prod.snd).count_le _

/-- When each worker of a pool has taken a signal off its queue, and no more of them were put there
behind the data, nothing is left in it. -/
theorem nothing_left {α : Type} [DecidableEq α] {l : List α} {k n : Nat}
    {out rest : List (Message α)} (h : l.map .data ++ List.replicate k .stop = out ++ rest)
    (hpos : 0 < n) (hn : n ≤ out.count .stop) (hk : (out ++ rest).count .stop ≤ n) :
    rest = [] := by
  have hstop : .stop ∈ out := List.count_pos_iff.mp (Nat.lt_of_lt_of_le hpos hn)
  have hcontents := no_content_left h hstop
  rw [List.count_append] at hk
  have hnone : rest.count .stop = 0 := by omega
  refine List.eq_nil_iff_forall_not_mem.mpr fun m hm => ?_
  cases m with
  | data a => cases List.filterMap_eq_nil_iff.mp hcontents _ hm
  | stop => exact List.count_eq_zero.mp hnone hm

/-- Whether the event is a check's answer that no worker is running. -/
@[simp] def Event.concludes : Event → Bool
  | replied _ (.active (.ok false)) => true
  | _ => false

theorem Event.not_concludes_of_not_isVerdict {e : Event} (h : e.isVerdict = false) :
    ¬ e.concludes := by
  cases e with
  | replied n a => cases a <;> simp_all
  | _ => simp

theorem Event.not_concludes_of_isPolling {e : Event} (h : e.isPolling = true) :
    ¬ e.concludes := by
  cases e <;> simp_all

/-- A check has said that no worker is running, and nothing tore the pipeline down. -/
def History.Over (h : History) : Prop :=
  (∃ x ∈ h, x.event.concludes) ∧ ∀ x ∈ h, x.event.isTeardown = false

/-- Once the work is over, checks keep saying so. -/
def Lasting : Event → History → Prop
  | .replied _ (.active r), past => past.Over → r = .ok false
  | _, _ => True

/-- When a check says that no worker is running, these workers have ended, and not with a
failure. -/
def Vouched (workers : List Task) : Event → History → Prop
  | .replied _ (.active (.ok false)), past =>
    ∀ t ∈ workers, ∃ e, (t, e) ∈ past.log Event.exit ∧ e.isFailure = false
  | _, _ => True

theorem lasting_of_not_isVerdict {e : Event} {past : History} (h : e.isVerdict = false) :
    Lasting e past := by
  cases e with
  | replied n a => cases a <;> simp_all [Lasting]
  | _ => trivial

theorem vouched_of_not_concludes {workers : List Task} {e : Event} {past : History}
    (h : ¬ e.concludes) : Vouched workers e past := by
  cases e with
  | replied n a =>
    cases a with
    | active r =>
      cases r with
      | error e => trivial
      | ok b => cases b <;> simp_all [Vouched]
    | _ => trivial
  | _ => trivial

theorem lasting_of_isPolling {e : Event} {past : History} (h : e.isPolling = true) :
    Lasting e past := by
  cases e <;> simp_all [Lasting]

theorem History.Over.of_adds {past h : History} (ho : h.Over)
    (ha : Adds (fun e => ¬ e.concludes) past h) : past.Over := by
  obtain ⟨⟨x, hx, hc⟩, ht⟩ := ho
  exact ⟨⟨x, (ha.mem hx).resolve_left (absurd hc), hc⟩, fun y hy => ht y (ha.suffix.subset hy)⟩

namespace Pipeline

variable {p q : Pipeline} {n : Nat} {s : CallStage}

theorem allWorkers_nodup (p : Pipeline) : p.allWorkers.Nodup := by
  refine List.nodup_append.mpr ⟨List.nodup_range.map fun i j h => Task.fetcher.inj h,
    List.nodup_range.map fun i j h => Task.emitter.inj h, ?_⟩
  simp

namespace Roster

/-- When all workers finished and have been collected, nothing else has been. -/
theorem collection_perm (h : Roster p) (hs : Staffed p)
    (hf : p.settings.FetchersIn (p.history.log Event.collection))
    (he : p.settings.EmittersIn (p.history.log Event.collection)) :
    (p.history.log Event.collection).Perm (p.allWorkers.map fun t => (t, .finished)) := by
  have hin : ∀ t ∈ p.allWorkers, (t, .finished) ∈ p.history.log Event.collection := by
    intro t ht
    simp only [allWorkers, List.mem_append, List.mem_map, List.mem_range] at ht
    rcases ht with ⟨i, hi, rfl⟩ | ⟨j, hj, rfl⟩
    · exact hf i hi
    · exact he j hj
  refine (List.perm_ext_iff_of_nodup h.collected_nodup.of_map
    (p.allWorkers_nodup.map fun t u htu => congrArg Prod.fst htu)).mpr ?_
  rintro ⟨t, e⟩
  rw [List.mem_map]
  constructor
  · intro hm
    have ht := h.mem_allWorkers hs (h.mem_exit_of_collection hm)
    exact ⟨t, ht, List.inj_on_of_nodup_map h.collected_nodup (hin t ht) hm rfl⟩
  · rintro ⟨u, hu, heq⟩
    exact heq ▸ hin u hu

theorem exits_eq_nil (h : Roster p) (hs : Staffed p)
    (hf : p.settings.FetchersIn (p.history.log Event.collection))
    (he : p.settings.EmittersIn (p.history.log Event.collection)) : p.tracker.exits = [] := by
  have hperm := h.collection_perm hs hf he
  have hnodup := h.nodup
  rw [h.exits, List.map_append] at hnodup
  refine List.eq_nil_iff_forall_not_mem.mpr fun x hx => ?_
  have ht := h.mem_allWorkers (t := x.1) (e := x.2) hs
    (h.exits ▸ List.mem_append_right _ hx)
  have hm := hperm.mem_iff.mpr (List.mem_map_of_mem (f := fun t => (t, Ending.finished)) ht)
  exact (List.nodup_append.mp hnodup).2.2 _ (List.mem_map_of_mem (f := Prod.fst) hm) _
    (List.mem_map_of_mem (f := Prod.fst) hx) rfl

theorem finished_eq (h : Roster p) (hs : Staffed p)
    (hf : p.settings.FetchersIn (p.history.log Event.collection))
    (he : p.settings.EmittersIn (p.history.log Event.collection)) :
    p.tracker.finished = p.settings.totalWorkers := by
  rw [h.finished, (h.collection_perm hs hf he).length_eq]
  simp [allWorkers, Settings.totalWorkers]

end Roster

/-- When all workers have been counted and no failure is latched, all of them have ended, and none
with a failure. -/
theorem Tracked.vouched (h : Tracked p) (hs : Staffed p) (hf : p.tracker.failure = none)
    (hc : p.tracker.finished = p.settings.totalWorkers) :
    ∀ t ∈ p.allWorkers, ∃ e, (t, e) ∈ p.history.log Event.exit ∧ e.isFailure = false := by
  intro t ht
  obtain ⟨e, he⟩ := h.all_collected hs hc ht
  refine ⟨e, h.mem_exit_of_collection he, ?_⟩
  cases hfail : e.isFailure with
  | false => rfl
  | true => exact absurd hf (h.failing t e he hfail)

/-- All workers finished and have been collected, and no emit stop signal is to be sent. -/
structure Through (p : Pipeline) : Prop where
  failure : p.tracker.failure = none
  sent : p.tracker.emitStopSent = true
  fetchers : p.settings.FetchersIn (p.history.log Event.collection)
  emitters : p.settings.EmittersIn (p.history.log Event.collection)

/-- What checks have said of the workers. -/
structure Concluding (p : Pipeline) : Prop where
  through : p.history.Over → Through p
  lasting : History.Each Lasting p.history
  vouched : History.Each (Vouched p.allWorkers) p.history

/-- A poll has nothing to do when all workers have been collected. -/
theorem PollResult.idle {t : Task} {v : Pipeline × Verdict} (h : PollResult p t v)
    (hs : p.started = true) (hf : p.tracker.failure = none) (he : p.tracker.exits = [])
    (hsent : p.tracker.emitStopSent = true) :
    v = (p, .active (p.tracker.finished ≠ p.settings.totalWorkers)) := by
  have hcollect : p.collect = (p, none) := by rw [collect, he]; rfl
  cases h with
  | notStarted hn => rw [hs] at hn; cases hn
  | latched _ hl => rw [hf] at hl; cases hl
  | failed _ _ hc => cases hcollect.symm.trans hc
  | injecting _ _ hc _ hn =>
    cases hcollect.symm.trans hc
    rw [hsent] at hn
    cases hn
  | noEmitters _ _ hc _ hn =>
    cases hcollect.symm.trans hc
    rw [hsent] at hn
    cases hn
  | active _ _ hc =>
    cases hcollect.symm.trans hc
    rfl

theorem PollResult.concluded {t : Task} (h : PollResult p t (q, .active false))
    (hpos : 0 < q.settings.numEmitters.toNat) :
    q.tracker.failure = none ∧ q.tracker.finished = q.settings.totalWorkers ∧
      (q.tracker.fetchFinished = q.settings.numClients.toNat → q.tracker.emitStopSent = true) := by
  generalize hx : (q, Verdict.active false) = v at h
  cases h with
  | notStarted | latched | failed | injecting => cases hx
  | noEmitters _ _ _ hz =>
    obtain ⟨rfl, -⟩ := Prod.mk.inj hx
    exact absurd hz (Nat.ne_of_gt hpos)
  | active _ hf hc hn =>
    obtain ⟨rfl, hfin⟩ := Prod.mk.inj hx
    exact ⟨(collects_of_collect hc).failure.trans hf, by simpa using hfin,
      fun he => hn.resolve_left (absurd he)⟩

theorem Injected.concluded {t : Task} {i : Injection} (h : Injected p t i (q, .active false)) :
    q.tracker.failure = p.tracker.failure ∧ q.tracker.finished = q.settings.totalWorkers ∧
      q.tracker.emitStopSent = true := by
  generalize hx : (q, Verdict.active false) = v at h
  cases h with
  | last =>
    obtain ⟨rfl, hfin⟩ := Prod.mk.inj hx
    exact ⟨rfl, by simpa [endInjection] using hfin, rfl⟩
  | next | stalled => cases hx

namespace Through

theorem calm (h : Through p) (hc : Calm p q) (hs : q.settings = p.settings) : Through q where
  failure := hc.failure.trans h.failure
  sent := hc.sent.trans h.sent
  fetchers := by rw [hs, hc.collections]; exact h.fetchers
  emitters := by rw [hs, hc.collections]; exact h.emitters

theorem of_tracked (h : Tracked p) (hs : Staffed p) (hf : p.tracker.failure = none)
    (hc : p.tracker.finished = p.settings.totalWorkers)
    (hsent : p.tracker.fetchFinished = p.settings.numClients.toNat → p.tracker.emitStopSent = true)
    (ht : ∀ x ∈ p.history, x.event.isTeardown = false) : Through p := by
  obtain ⟨hfetchers, hemitters⟩ := h.all_finished hs hf ht hc
  exact ⟨hf, hsent (h.fetchFinished_eq hs hfetchers), hfetchers, hemitters⟩

theorem reply {a : Reply} (h : Through p) : Through (p.reply n a) where
  failure := h.failure
  sent := h.sent
  fetchers := by simpa [Pipeline.reply, release, record] using h.fetchers
  emitters := by simpa [Pipeline.reply, release, record] using h.emitters

end Through

namespace Concluding

/-- Nothing is recorded that has to do with checks. -/
theorem of_adds (h : Concluding p) (hs : q.settings = p.settings)
    (ha : History.Adds (fun e => ¬ e.concludes ∧ ∀ past, Lasting e past) p.history q.history)
    (ht : Through p → Through q) : Concluding q where
  through ho := ht (h.through (ho.of_adds (ha.mono fun _ => And.left)))
  lasting := ha.each (fun _ past he => he.2 past) h.lasting
  vouched := by
    rw [show q.allWorkers = p.allWorkers by rw [allWorkers, hs, ← allWorkers]]
    exact ha.each (fun _ _ he => vouched_of_not_concludes he.1) h.vouched

/-- A check answers what its poll has come to. -/
theorem afterCheckPoll {v : Pipeline × Verdict} (h : Concluding v.1)
    (hthrough : v.2 = .active false → (∀ x ∈ v.1.history, x.event.isTeardown = false) →
      Through v.1)
    (hvouched : v.2 = .active false →
      ∀ t ∈ v.1.allWorkers, ∃ e, (t, e) ∈ v.1.history.log Event.exit ∧ e.isFailure = false)
    (hover : v.1.history.Over → v.2 = .active false) : Concluding (afterCheckPoll n v) := by
  obtain ⟨q, v⟩ := v
  have other {r : Except PipelineError Bool} (hr : r ≠ .ok false) (hv : v ≠ .active false) :
      Concluding (q.reply n (.active r)) := by
    have hnot : ¬ q.history.Over := fun ho => hv (hover ho)
    have hc : ¬ (Event.replied n (.active r)).concludes := by
      cases r with
      | error e => simp
      | ok b => cases b <;> simp_all
    refine ⟨fun ho => absurd (ho.of_adds (.one hc)) hnot, ⟨fun ho => absurd ho hnot, h.lasting⟩,
      vouched_of_not_concludes hc, h.vouched⟩
  cases v with
  | failed e => exact other (by simp) (by simp)
  | active b =>
    cases b with
    | true => exact other (by simp) (by simp)
    | false =>
      refine ⟨fun ho => (hthrough rfl fun x hx => ho.2 x (List.mem_cons_of_mem _ hx)).reply,
        ⟨fun _ => rfl, h.lasting⟩, hvouched rfl, h.vouched⟩
  | injecting i =>
    refine ⟨fun ho => ?_, h.lasting, h.vouched⟩
    obtain ⟨hf, hs, hin, hout⟩ := h.through ho
    exact ⟨hf, hs, hin, hout⟩

end Concluding

section Runs

variable {settings : Settings} {origin : Instant} {p₀ : Pipeline}

/-- Every fetch worker that finished has taken a signal of the announcement. -/
theorem Reaches.le_fetchStops (h : p₀.Reaches p) (hb : build settings origin = .built p₀)
    (hin : p.settings.FetchersIn (p.history.log Event.exit)) :
    p.settings.numClients.toNat ≤ ((p.history.log Event.receipt).map Prod.snd).count .stop :=
  le_count_stop fun i hi => h.fetcher_stopped hb (hin i hi)

namespace Through

theorem exits_in (h : Through p) (ht : Tracked p) :
    p.settings.FetchersIn (p.history.log Event.exit) ∧
      p.settings.EmittersIn (p.history.log Event.exit) :=
  ⟨fun i hi => ht.mem_exit_of_collection (h.fetchers i hi),
    fun j hj => ht.mem_exit_of_collection (h.emitters j hj)⟩

theorem started (h : Through p) (hr : p₀.Reaches p) (hb : build settings origin = .built p₀) :
    p.started = true := by
  by_contra hs
  have hfirst := h.fetchers 0 (hr.numClients_pos hb)
  rw [((hr.latching hb).unopened (by simpa using hs)).2.1] at hfirst
  cases hfirst

/-- All signals of the announcement are on the queue, so no call has one left to send. -/
theorem le_fetchStops (h : Through p) (hr : p₀.Reaches p) (hb : build settings origin = .built p₀) :
    p.settings.numClients.toNat ≤ p.history.fetchStops := by
  have htaken := hr.le_fetchStops hb (h.exits_in (hr.tracked hb)).1
  unfold History.fetchStops
  rw [(hr.balanced hb).intake, List.count_append]
  omega

/-- A poll finds that all workers have been collected. -/
theorem poll (h : Through p) (hr : p₀.Reaches p) (hb : build settings origin = .built p₀)
    (t : Task) : p.poll t = (p, .active false) := by
  have ht := hr.tracked hb
  have hs := hr.staffed hb
  have hidle := (poll_result p t).idle (h.started hr hb) h.failure
    (ht.exits_eq_nil hs h.fetchers h.emitters) h.sent
  rw [hidle, ht.finished_eq hs h.fetchers h.emitters]
  simp

end Through

/-- Events of polls have nothing to do with the answers of checks. -/
theorem adds_of_polling {past h : History}
    (ha : History.Adds (fun e => e.isPolling = true) past h) :
    History.Adds (fun e => ¬ e.concludes ∧ ∀ past, Lasting e past) past h :=
  ha.mono fun _ he => ⟨Event.not_concludes_of_isPolling he, fun _ => lasting_of_isPolling he⟩

theorem adds_of_calm (hc : Calm p q) :
    History.Adds (fun e => ¬ e.concludes ∧ ∀ past, Lasting e past) p.history q.history :=
  hc.history.mono fun _ he =>
    ⟨Event.not_concludes_of_not_isVerdict he, fun _ => lasting_of_not_isVerdict he⟩

namespace Concluding

/-- A check polls. -/
theorem checked (h : Concluding p) (hr : p₀.Reaches p) (hb : build settings origin = .built p₀) :
    Concluding (Pipeline.afterCheckPoll n (p.poll (.call n))) := by
  have hp := Polled.poll p (.call n)
  have ht := (hr.tracked hb).poll (.call n)
  have hs := (hr.staffed hb).of_kept (.of_polled hp)
  have hv := poll_result p (.call n)
  have hpos := hr.numEmitters_pos hb
  rw [← hp.settings] at hpos
  have hthrough (ho : Through p) : p.poll (.call n) = (p, .active false) := ho.poll hr hb _
  generalize p.poll (.call n) = v at hp ht hs hv hpos hthrough
  obtain ⟨q, v⟩ := v
  refine afterCheckPoll (h.of_adds hp.settings (adds_of_polling hp.polling) fun ho => ?_) ?_ ?_ ?_
  · rw [hthrough ho]
    exact ho
  · rintro rfl htear
    obtain ⟨hf, hc, hsent⟩ := hv.concluded hpos
    exact .of_tracked ht hs hf hc hsent htear
  · rintro rfl
    obtain ⟨hf, hc, -⟩ := hv.concluded hpos
    exact ht.vouched hs hf hc
  · intro ho
    have hover := ho.of_adds (hp.polling.mono fun _ => Event.not_concludes_of_isPolling)
    rw [hthrough (h.through hover)]

/-- A check that injects goes on. It cannot do so once a check has found all workers collected. -/
theorem injected {i : Injection} {v : Pipeline × Verdict} (h : Concluding p) (hr : p₀.Reaches p)
    (hb : build settings origin = .built p₀) (hm : (n, .checkInjecting i) ∈ p.calls)
    (hi : Injected p (.call n) i v) : Concluding (Pipeline.afterCheckPoll n v) := by
  obtain ⟨hf, hunsent, -, -⟩ := (hr.handshake hb).check n i hm
  have hk := CallsKept.injected hi
  have ht := (hr.tracked hb).injected hi
  have hs := (hr.staffed hb).of_kept hk
  have hno (ho : Through p) : False := by
    rw [ho.sent] at hunsent
    cases hunsent
  obtain ⟨q, v⟩ := v
  refine afterCheckPoll (h.of_adds hk.settings (adds_of_polling hi.polling) fun ho => (hno ho).elim)
    ?_ ?_ ?_
  · rintro rfl htear
    obtain ⟨hq, hc, hsent⟩ := hi.concluded
    exact .of_tracked ht hs (hq.trans hf) hc (fun _ => hsent) htear
  · rintro rfl
    obtain ⟨hq, hc, -⟩ := hi.concluded
    exact ht.vouched hs (hq.trans hf) hc
  · intro ho
    have hover := ho.of_adds (hi.polling.mono fun _ => Event.not_concludes_of_isPolling)
    exact (hno (h.through hover)).elim

theorem move (h : Concluding p) (hr : p₀.Reaches p) (hb : build settings origin = .built p₀)
    (hm : Move p q) : Concluding q := by
  have hset := hm.settings
  cases hm.judged (hr.handshake hb) with
  | calm hc => exact h.of_adds hset (adds_of_calm hc) fun ho => ho.calm hc hset
  | @polled _ r t hpr htr hq =>
    refine h.of_adds hset ?_ fun ho => ?_
    · exact (adds_of_calm hpr).trans
        ((adds_of_polling (Polled.poll r t).polling).trans (adds_of_calm hq))
    · have hexits := (hr.tracked hb).exits_eq_nil (hr.staffed hb) ho.fetchers ho.emitters
      have hidle := (poll_result r t).idle (hpr.started (ho.started hr hb))
        (hpr.failure.trans ho.failure) (by rw [htr, hexits]) (hpr.sent.trans ho.sent)
      rw [hidle] at hq
      exact ho.calm (hpr.trans hq) hset
  | checked => exact h.checked hr hb
  | injected hcall hi => exact h.injected hr hb hcall hi
  | @stalledOut n hcall =>
    have hlatched : History.Adds (fun e => ¬ e.concludes ∧ ∀ past, Lasting e past) p.history
        (p.fail (.stalled Cargo.fetchStop.label p.ceiling)).history :=
      adds_of_polling (Polled.fail _ _).polling
    refine h.of_adds hset (hlatched.trans (.one ⟨by simp, fun _ => trivial⟩)) fun ho => ?_
    obtain ⟨-, -, hsent, -⟩ := (hr.announced hb).of_announces (hr.sections hb) hcall rfl
    exact absurd (ho.le_fetchStops hr hb) (Nat.not_le_of_lt hsent)

end Concluding

theorem Reaches.concluding (h : p₀.Reaches p) (hb : build settings origin = .built p₀) :
    Concluding p := by
  refine h.invariant ?_ fun r s hr ih hm => ih.move hr hb hm
  obtain ⟨-, -, rfl⟩ := build_eq_built hb
  exact ⟨fun ho => by simpa using ho.1, trivial, trivial⟩

/-- What a pipeline shows whose work is over. -/
structure Concluded (p : Pipeline) : Prop where
  phase : p.statusView.phase = .stopped
  fetchPool : p.statusView.fetchPool.finished = p.settings.numClients
  emitPool : p.statusView.emitPool.finished = p.settings.numEmitters
  intake : p.remainingCapacity = p.settings.queueSize.toNat
  /-- Only stop signals can be left on the outtake queue. -/
  outtake : ∀ m ∈ p.outtake.messages, m = .stop
  /-- None is left if no caller gave up a check. -/
  emptied : p.history.Persistent → p.emitQueueRemaining = emitQueueSize
  /-- A check whose turn has come answers at once. -/
  answers : ∀ n, (n, .checking) ∈ p.calls → p.trackerLock.heldBy (.call n) = true →
    p.step (.proceed (.call n)) = some (p.reply n (.active (.ok false)))

namespace Through

theorem intake_eq_nil (h : Through p) (hr : p₀.Reaches p) (hb : build settings origin = .built p₀) :
    p.intake.messages = [] := by
  have hin := (h.exits_in (hr.tracked hb)).1
  have hbal := hr.balanced hb
  obtain ⟨k, hk⟩ := (hr.ordered hb).queued
  have hsplit : (History.submissions p.history).flatten.map .data ++ List.replicate k .stop =
      (p.history.log Event.receipt).map Prod.snd ++ p.intake.messages := by
    rw [← hbal.intake, hk, List.map_flatten, List.flatMap_def]
  refine nothing_left hsplit (hr.numClients_pos hb) (hr.le_fetchStops hb hin) ?_
  rw [← hbal.intake]
  exact (hr.announced hb).fetchStops_le

/-- Payloads and signals that went through the outtake queue. -/
theorem outtake_split (hr : p₀.Reaches p) (hb : build settings origin = .built p₀) :
    ∃ k, ((p.history.log Event.placement).map Prod.snd).map .data ++ List.replicate k .stop =
      (p.history.log Event.taking).map Prod.snd ++ p.outtake.messages := by
  obtain ⟨k, hk⟩ := (hr.handshake hb).behind
  refine ⟨k, ?_⟩
  rw [← (hr.balanced hb).outtake, hk, List.map_map]
  rfl

theorem takings (h : Through p) (hr : p₀.Reaches p) (hb : build settings origin = .built p₀) :
    p.settings.numEmitters.toNat ≤ ((p.history.log Event.taking).map Prod.snd).count .stop :=
  le_count_stop fun j hj => hr.dismissed hb j ((h.exits_in (hr.tracked hb)).2 j hj)

theorem outtake_stops (h : Through p) (hr : p₀.Reaches p) (hb : build settings origin = .built p₀) :
    ∀ m ∈ p.outtake.messages, m = .stop := by
  obtain ⟨k, hk⟩ := outtake_split hr hb
  have hstop := List.count_pos_iff.mp (Nat.lt_of_lt_of_le (hr.numEmitters_pos hb) (h.takings hr hb))
  have hcontents := no_content_left hk hstop
  intro m hm
  cases m with
  | data a => cases List.filterMap_eq_nil_iff.mp hcontents _ hm
  | stop => rfl

theorem outtake_eq_nil (h : Through p) (hr : p₀.Reaches p) (hb : build settings origin = .built p₀)
    (hp : p.history.Persistent) : p.outtake.messages = [] := by
  obtain ⟨k, hk⟩ := outtake_split hr hb
  refine nothing_left hk (hr.numEmitters_pos hb) (h.takings hr hb) ?_
  rw [← (hr.balanced hb).outtake]
  rcases ((hr.handshake hb).counted hp).sent h.sent with heq | ⟨hle, -⟩
  · exact Nat.le_of_eq heq
  · exact hle

theorem not_sends (h : Through p) (hr : p₀.Reaches p) (hb : build settings origin = .built p₀)
    (hm : (n, s) ∈ p.calls) : s.sends = false := by
  cases s with
  | sending item deadline =>
    exact absurd (h.exits_in (hr.tracked hb)).1 (hr.not_fetchersIn_of_admits hb hm rfl)
  | stopping left deadline =>
    obtain ⟨-, -, ⟨hpos, hsum⟩, -⟩ := (hr.announced hb).of_announces (hr.sections hb) hm rfl
    have := h.le_fetchStops hr hb
    omega
  | _ => rfl

theorem not_awaitsOuttake (h : Through p) (hr : p₀.Reaches p)
    (hb : build settings origin = .built p₀) (t : Task) : ¬ p.AwaitsOuttake t := by
  have hk := hr.handshake hb
  intro ha
  cases t with
  | emitter j => exact ha
  | call n =>
    obtain ⟨s, hm, hs⟩ := ha
    cases s with
    | offerInjecting item wait i => exact hk.offer n item wait i hm
    | checkInjecting i =>
      have hunsent := (hk.check n i hm).2.1
      rw [h.sent] at hunsent
      cases hunsent
    | _ => cases hs
  | fetcher i =>
    obtain ⟨s, hstage, hs⟩ := ha
    have hlen : i < p.settings.numClients.toNat := by
      obtain ⟨w, hw, -⟩ := Option.map_eq_some_iff.mp hstage
      exact Nat.lt_of_lt_of_le (List.getElem?_eq_some_iff.mp hw).1 (hr.staffed hb).fetchers_le
    have hgone := (hr.tracked hb).gone _ _ ((h.exits_in (hr.tracked hb)).1 i hlen)
    rw [show p.fetchStage? i = some .exited from hgone] at hstage
    cases hstage
    cases hs

theorem concluded (h : Through p) (hr : p₀.Reaches p) (hb : build settings origin = .built p₀)
    (ht : ∀ x ∈ p.history, x.event.isTeardown = false) : Concluded p := by
  have htracked := hr.tracked hb
  have hs := hr.staffed hb
  have hl := hr.lines hb
  have hopen : p.closed = false := by
    by_contra hc
    rcases htracked.cause (by simpa using hc) with hf | ⟨x, hx, hd⟩
    · exact hf h.failure
    · rw [ht x hx] at hd; cases hd
  constructor
  · simp [statusView, Pipeline.phase, h.started hr hb, hopen,
      htracked.finished_eq hs h.fetchers h.emitters]
  · simp [statusView, htracked.fetchFinished_eq hs h.fetchers]
  · simp [statusView, htracked.emitFinished_eq hs h.emitters]
  · have hsenders : p.intake.senders = [] := by
      refine List.eq_nil_iff_forall_not_mem.mpr fun t ht => ?_
      obtain ⟨n, s, rfl, hm, hsends⟩ := hl.exists_call ht
      rw [h.not_sends hr hb hm] at hsends
      cases hsends
    simp [remainingCapacity, Queue.free, h.intake_eq_nil hr hb, hsenders, hl.intake.capacity]
  · exact h.outtake_stops hr hb
  · intro hp
    have hsenders : p.outtake.senders = [] := List.eq_nil_iff_forall_not_mem.mpr fun t hm =>
      h.not_awaitsOuttake hr hb t ((hl.outtake.mem_iff t).mp hm)
    simp [emitQueueRemaining, Queue.free, h.outtake_eq_nil hr hb hp, hsenders, hl.outtake.capacity]
  · intro n hm held
    have hstage := (hr.sections hb).callStage?_eq hm
    simp [Pipeline.step, proceed?, hstage, stepCall?, held, h.poll hr hb, afterCheckPoll]

end Through

/-- A check that says that no worker is running tells the truth. If nothing tore the pipeline down,
this is how it stays: the pools are through, no item or payload is left, and every later check says
the same. -/
theorem Reaches.conclusion (h : p₀.Reaches p) (hb : build settings origin = .built p₀)
    {later past : History} {time n : Nat}
    (hv : p.history = later ++ ⟨time, .replied n (.active (.ok false))⟩ :: past) :
    (∀ t ∈ p.allWorkers, ∃ e, (t, e) ∈ past.log Event.exit) ∧
      (∀ t e, (t, e) ∈ p.history.log Event.exit → e.isFailure = false) ∧
      ((∀ x ∈ p.history, x.event.isTeardown = false) → Concluded p ∧
        ∀ x ∈ later, ∀ m r, x.event = .replied m (.active r) → r = .ok false) := by
  have hc := h.concluding hb
  have ht := h.tracked hb
  have hsuffix : ⟨time, .replied n (.active (.ok false))⟩ :: past <:+ p.history :=
    ⟨later, hv.symm⟩
  have hvouched : ∀ t ∈ p.allWorkers, ∃ e, (t, e) ∈ past.log Event.exit ∧ e.isFailure = false :=
    hc.vouched.of_suffix hsuffix
  refine ⟨fun t hw => ?_, fun t e he => ?_, fun htear => ?_⟩
  · obtain ⟨e, he, -⟩ := hvouched t hw
    exact ⟨e, he⟩
  · obtain ⟨e', he', hfail⟩ := hvouched t (ht.mem_allWorkers (h.staffed hb) he)
    have hexit := (History.log_prefix_of_suffix Event.exit
      ((List.suffix_cons _ _).trans hsuffix)).subset he'
    cases List.inj_on_of_nodup_map ht.nodup he hexit rfl
    exact hfail
  · have hover : p.history.Over := ⟨⟨_, hsuffix.subset List.mem_cons_self, rfl⟩, htear⟩
    refine ⟨(hc.through hover).concluded h hb htear, fun x hx m r hr => ?_⟩
    obtain ⟨after, before, rfl⟩ := List.append_of_mem hx
    have hlast : x :: (before ++ ⟨time, .replied n (.active (.ok false))⟩ :: past) <:+ p.history :=
      ⟨after, by simp [hv]⟩
    have hlasting := hc.lasting.of_suffix hlast
    rw [hr] at hlasting
    refine hlasting ⟨⟨_, List.mem_append_right _ List.mem_cons_self, rfl⟩, fun y hy => ?_⟩
    exact htear y (hlast.subset (List.mem_cons_of_mem _ hy))

end Runs

/-- The drained batch again, with one more check at the end. -/
def drainedTwice : List Action := drainedBatch ++ [.invoke 5 .checkActive, .proceed (.call 5)]

theorem drainedTwice_conclusion :
    ∃ p q, build narrow default = .built p ∧ p.run drainedTwice = some q ∧
      ∃ (later past : History) (time n : Nat),
        q.history = later ++ ⟨time, .replied n (.active (.ok false))⟩ :: past ∧
        later.length = 2 ∧ (∀ x ∈ q.history, x.event.isTeardown = false) ∧
        (∀ t ∈ q.allWorkers, ∃ e, (t, e) ∈ past.log Event.exit) ∧
        (∀ t e, (t, e) ∈ q.history.log Event.exit → e.isFailure = false) ∧
        ((∀ x ∈ q.history, x.event.isTeardown = false) → Concluded q ∧
          ∀ x ∈ later, ∀ m r, x.event = .replied m (.active r) → r = .ok false) := by
  refine ⟨_, _, rfl, rfl, [_, _], _, _, _, rfl, rfl, by decide, ?_⟩
  exact Reaches.conclusion ⟨drainedTwice, rfl⟩ (show build narrow default = _ from rfl) rfl

/-- One more emit worker than the outtake queue has room for. -/
def swarm : Settings := { queueSize := 1, numClients := 1, numEmitters := 101 }

/-- An emit worker takes its stop signal and ends. -/
def dismissal (j : Nat) : List Action := List.replicate 3 (.proceed (.emitter j))

/-- A check is given up when it has sent all emit stop signals but one. All but one of the emit
workers take theirs, the next check sends all signals again, and the last emit worker takes one. -/
def desertedCheck : List Action :=
  .invoke 0 .start :: List.replicate 104 (.proceed (.call 0)) ++
    [.invoke 1 .finish, .proceed (.call 1), .proceed (.call 1),
      .proceed (.fetcher 0), .clientReturns 0 (.value ()), .proceed (.fetcher 0),
      .proceed (.fetcher 0), .invoke 2 .checkActive] ++
    List.replicate 101 (.proceed (.call 2)) ++ .cancel 2 :: (List.range 100).flatMap dismissal ++
    .invoke 3 .checkActive :: List.replicate 101 (.proceed (.call 3)) ++ dismissal 100 ++
    [.proceed (.call 3), .invoke 4 .checkActive, .proceed (.call 4)]

set_option maxRecDepth 20000 in
/-- Although nothing tore the pipeline down, the outtake queue is full when a check says that no
worker is running. -/
theorem desertedCheck_left :
    ∃ p q, build swarm default = .built p ∧ p.run desertedCheck = some q ∧
      (∃ x ∈ q.history, x.event.concludes = true) ∧
      (∀ x ∈ q.history, x.event.isTeardown = false) ∧ q.emitQueueRemaining = 0 := by
  obtain ⟨p, hp⟩ : ∃ p, build swarm default = .built p := ⟨_, rfl⟩
  have hrun : ((p.run desertedCheck).any fun q =>
      q.history.any (fun x => x.event.concludes) && q.history.all (fun x => !x.event.isTeardown) &&
        q.emitQueueRemaining == 0) = true := by
    obtain rfl := Construction.built.inj (hp.symm.trans (show build swarm default = _ from rfl))
    decide +kernel
  obtain ⟨q, hq, hleft⟩ := (Option.any_eq_true _ _).mp hrun
  simp only [Bool.and_eq_true, List.any_eq_true, List.all_eq_true] at hleft
  exact ⟨p, q, hp, hq, hleft.1.1, by simpa using hleft.1.2, by simpa using hleft.2⟩

end Pipeline

end DocumentPipeline
