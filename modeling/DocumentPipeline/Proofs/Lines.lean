import DocumentPipeline.Proofs.Injection
import DocumentPipeline.Proofs.Waiting
import Mathlib.Logic.Function.Basic

/-! # Who stands in line at the queues

In the line of a queue stands exactly who waits for a slot of it: at the intake queue a call
that sends an item or a stop signal, at the outtake queue a fetch worker with its payload and
whoever injects stop signals. Nobody stands in a line twice, and a queue never holds more
messages than it has slots.
-/
namespace DocumentPipeline

open Function (update)

/-- Whether a call at this stage waits for a slot of the intake queue. -/
@[simp] def CallStage.sends : CallStage → Bool
  | sending _ _ | stopping _ _ => true
  | _ => false

/-- Whether a fetch worker at this stage waits for a slot of the outtake queue. -/
@[simp] def FetchStage.handsOver : FetchStage → Bool
  | handing _ _ _ _ | injecting _ => true
  | _ => false

theorem CallStage.holdsProducer_of_sends {s : CallStage} (h : s.sends = true) :
    s.holdsProducer = true := by
  cases s <;> simp_all

def Verdict.isInjecting : Verdict → Bool
  | injecting _ => true
  | _ => false

namespace Queue

variable {α : Type} {q : Queue α} {size : Nat} {waits waits' : Task → Prop} {own : Task}
  {standing : Bool}

/-- A queue with so many slots, in whose line stands who waits for a slot. -/
structure Lined (q : Queue α) (size : Nat) (waits : Task → Prop) : Prop where
  capacity : q.capacity = size
  fits : q.messages.length ≤ size
  nodup : q.senders.Nodup
  mem_iff : ∀ t, t ∈ q.senders ↔ waits t

namespace Lined

theorem congr (h : q.Lined size waits) (hw : ∀ t, waits t ↔ waits' t) : q.Lined size waits' :=
  ⟨h.capacity, h.fits, h.nodup, fun t => (h.mem_iff t).trans (hw t)⟩

theorem leave (h : q.Lined size (update waits own (standing = true))) :
    (q.leave own).Lined size (update waits own (false = true)) where
  capacity := h.capacity
  fits := h.fits
  nodup := h.nodup.erase own
  mem_iff t := by
    rw [Queue.leave, h.nodup.mem_erase_iff, h.mem_iff]
    by_cases ht : t = own
    · simp [ht]
    · simp [ht]

theorem join (h : q.Lined size (update waits own (false = true))) :
    (q.join own).Lined size (update waits own (true = true)) where
  capacity := h.capacity
  fits := h.fits
  nodup := by
    have hnew : own ∉ q.senders := by simp [h.mem_iff]
    simpa [Queue.join, List.nodup_append, h.nodup] using fun t ht (he : t = own) => hnew (he ▸ ht)
  mem_iff t := by
    by_cases ht : t = own
    · simp [Queue.join, ht]
    · simp [Queue.join, h.mem_iff, ht]

theorem length_lt_of_hasSlot {t : Task} (h : q.Lined size waits) (hs : q.hasSlot t = true) :
    q.messages.length < size := by
  simp only [hasSlot, Bool.and_eq_true, decide_eq_true_eq] at hs
  rw [← h.capacity]
  omega

theorem push {m : Message α} (h : q.Lined size (update waits own (standing = true)))
    (hs : q.hasSlot own = true) : (q.push own m).Lined size (update waits own (false = true)) :=
  { h.leave with
    fits := by
      have := h.length_lt_of_hasSlot hs
      simpa [Queue.push] using Nat.succ_le_of_lt this }

/-- Messages enter the slots that are free. -/
theorem fill {ms : List (Message α)} (h : q.Lined size waits) (hf : ms.length ≤ q.free) :
    ({ q with messages := q.messages ++ ms } : Queue α).Lined size waits :=
  { h with
    fits := by
      have := h.capacity
      have := h.fits
      simp only [Queue.free] at hf
      simp only [List.length_append]
      omega }

theorem take {m : Message α} {ms : List (Message α)} (h : q.Lined size waits)
    (hm : q.messages = m :: ms) : ({ q with messages := ms } : Queue α).Lined size waits :=
  { h with
    fits := by
      have := h.fits
      rw [hm, List.length_cons] at this
      exact Nat.le_of_succ_le this }

end Lined

end Queue

namespace Pipeline

/-- Who waits for a slot of the intake queue. -/
def AwaitsIntake (p : Pipeline) : Task → Prop
  | .call n => ∃ s, (n, s) ∈ p.calls ∧ s.sends = true
  | _ => False

/-- Who waits for a slot of the outtake queue. -/
def AwaitsOuttake (p : Pipeline) : Task → Prop
  | .call n => ∃ s, (n, s) ∈ p.calls ∧ s.isInjecting = true
  | .fetcher i => ∃ s, p.fetchStage? i = some s ∧ s.handsOver = true
  | .emitter _ => False

/-- The lines of both queues are made up of those who wait. -/
structure Lines (p : Pipeline) : Prop where
  intake : p.intake.Lined p.settings.queueSize.toNat p.AwaitsIntake
  outtake : p.outtake.Lined emitQueueSize p.AwaitsOuttake

/-- On the way from one state to another, one task stands in the lines as given and all others as
they did. -/
structure Stands (own : Task) (atIntake atOuttake : Bool) (p q : Pipeline) : Prop where
  intake : q.intake.Lined p.settings.queueSize.toNat (update p.AwaitsIntake own (atIntake = true))
  outtake : q.outtake.Lined emitQueueSize (update p.AwaitsOuttake own (atOuttake = true))

theorem fetchStage?_endFetcher {p : Pipeline} {i : Nat} {w : Fetcher} {e : Ending}
    {s : FetchStage} (h : p.fetchStage? i = some s) :
    (p.endFetcher i w e).fetchStage? i = some .exited := by
  unfold endFetcher
  split <;> exact fetchStage?_of_setFetcher h rfl

namespace Stands

variable {p q r : Pipeline} {own t : Task} {a b : Bool} {n : Nat}

/-- The task stands where its stage requires. -/
theorem start (h : Lines p) (ha : p.AwaitsIntake own ↔ a = true)
    (hb : p.AwaitsOuttake own ↔ b = true) :
    Stands own a b p p := by
  refine ⟨h.intake.congr fun t => ?_, h.outtake.congr fun t => ?_⟩
  · by_cases ht : t = own
    · simp [ht, ha]
    · simp [ht]
  · by_cases ht : t = own
    · simp [ht, hb]
    · simp [ht]

theorem reply {x : Reply} (h : Stands (.call n) a b p q) :
    Stands (.call n) false false p (q.reply n x) :=
  ⟨h.intake.leave, h.outtake.leave⟩

theorem endWorker {e : Ending} (h : Stands own a b p q) :
    Stands own false false p (q.endWorker own e) :=
  ⟨h.intake.leave, h.outtake.leave⟩

theorem endFetcher {i : Nat} {w : Fetcher} {e : Ending} (h : Stands (.fetcher i) a b p q) :
    Stands (.fetcher i) false false p (q.endFetcher i w e) := by
  unfold Pipeline.endFetcher
  refine endWorker (a := a) (b := b) ?_
  split <;> exact ⟨h.intake, h.outtake⟩

theorem queueEmitStop {r : Nat} (h : Stands own a false p q) :
    Stands own a true p (q.queueEmitStop own r).1 :=
  ⟨h.intake, h.outtake.join⟩

theorem collect {f : Option Failure} (h : Stands own a b p q) (hc : q.collect = (r, f)) :
    Stands own a b p r :=
  ⟨(Polled.of_collect hc).intake ▸ h.intake, outtake_of_collect hc ▸ h.outtake⟩

/-- Who polls joins the line of the outtake queue if it comes to an injection. -/
theorem poll {v : Pipeline × Verdict} (h : Stands own a false p q) (hr : PollResult q own v) :
    Stands own a v.2.isInjecting p v.1 := by
  cases hr with
  | notStarted | latched => exact h
  | failed _ _ hc => exact h.collect hc
  | injecting _ _ hc => exact (h.collect hc).queueEmitStop
  | noEmitters _ _ hc =>
    have hq := h.collect hc
    exact ⟨hq.intake, hq.outtake⟩
  | active _ _ hc => exact h.collect hc

/-- Who injects leaves the line of the outtake queue and joins it again for the next signal. -/
theorem injected {i : Injection} {v : Pipeline × Verdict} (h : Stands own a b p q)
    (hi : Injected q own i v) : Stands own a v.2.isInjecting p v.1 := by
  cases hi with
  | last hs hr => exact ⟨h.intake, h.outtake.push hs⟩
  | next hs hr =>
    have hpush : Stands own a false p
        ({ q with outtake := q.outtake.push own .stop }.record (.stopQueued .emit)) :=
      ⟨h.intake, h.outtake.push hs⟩
    exact hpush.queueEmitStop
  | stalled hs hd hq hf =>
    subst hq
    exact ⟨h.intake, h.outtake.leave⟩

/-- When a step is over, its task stands in the lines that its stage requires. -/
theorem lines (h : Stands own a b p q) (hs : q.settings = p.settings)
    (ha : q.AwaitsIntake own ↔ a = true) (hb : q.AwaitsOuttake own ↔ b = true)
    (hc : ∀ n, .call n ≠ own → Waits n p q)
    (hf : ∀ i, .fetcher i ≠ own → Idles (.fetcher i) p q) : Lines q := by
  have hin : ∀ t, t ≠ own → (p.AwaitsIntake t ↔ q.AwaitsIntake t) := by
    rintro (i | j | n) ht
    · rfl
    · rfl
    · simp only [AwaitsIntake, (hc n ht).calls]
  have hout : ∀ t, t ≠ own → (p.AwaitsOuttake t ↔ q.AwaitsOuttake t) := by
    rintro (i | j | n) ht
    · rcases (hf i ht).stage i rfl with he | ⟨hp, hq⟩
      · simp only [AwaitsOuttake, he]
      · simp [AwaitsOuttake, hp, hq]
    · rfl
    · simp only [AwaitsOuttake, (hc n ht).calls]
  refine ⟨?_, h.outtake.congr fun t => ?_⟩
  · rw [hs]
    refine h.intake.congr fun t => ?_
    by_cases ht : t = own
    · simp [ht, ha]
    · simp [ht, hin t ht]
  · by_cases ht : t = own
    · simp [ht, hb]
    · simp [ht, hout t ht]

/-- A fetch worker has stopped waiting and may poll. -/
theorem afterFetcherPoll {i : Nat} {w : Fetcher} {s : FetchStage} {v : Pipeline × Verdict}
    (h : Stands (.fetcher i) false v.2.isInjecting p v.1) (hs : v.1.fetchStage? i = some s) :
    ∃ u, (afterFetcherPoll i w v).fetchStage? i = some u ∧
      Stands (.fetcher i) false u.handsOver p (afterFetcherPoll i w v) := by
  obtain ⟨q, v⟩ := v
  cases v with
  | failed e => exact ⟨_, fetchStage?_endFetcher hs, h.endFetcher⟩
  | active r => exact ⟨.queuing, fetchStage?_of_setFetcher hs rfl, h.intake, h.outtake⟩
  | injecting j => exact ⟨.injecting j, fetchStage?_of_setFetcher hs rfl, h.intake, h.outtake⟩

theorem tryPoll {i : Nat} {w : Fetcher} {s : FetchStage}
    (h : Stands (.fetcher i) false false p q) (hs : q.fetchStage? i = some s) :
    ∃ u, (q.tryPoll i w).fetchStage? i = some u ∧
      Stands (.fetcher i) false u.handsOver p (q.tryPoll i w) := by
  unfold Pipeline.tryPoll
  split
  · have hr : Stands (.fetcher i) false false p (q.requestTracker (.fetcher i)) :=
      ⟨h.intake, h.outtake⟩
    refine afterFetcherPoll (hr.poll (poll_result _ _)) (s := s) ?_
    rw [(Polled.poll _ _).fetchStage]
    exact hs
  · exact ⟨.queuing, fetchStage?_of_setFetcher hs rfl, h.intake, h.outtake⟩

end Stands

/-- A call has come to a stage or has ended, and stands in the lines of that stage. -/
structure Placed (n : Nat) (stage : Option CallStage) (p q : Pipeline) : Prop where
  calls : ∀ s, (n, s) ∈ q.calls ↔ stage = some s
  stands : Stands (.call n) (stage.any (·.sends)) (stage.any (·.isInjecting)) p q

namespace Placed

variable {p q : Pipeline} {a b : Bool} {n : Nat} {s u : CallStage} {stage : Option CallStage}

theorem lines (h : Placed n stage p q) (hs : q.settings = p.settings)
    (hc : ∀ m, m ≠ n → Waits m p q) (hf : ∀ i, Idles (.fetcher i) p q) : Lines q := by
  refine h.stands.lines hs ?_ ?_ (fun m hm => hc m (by simpa using hm)) fun i _ => hf i
  · simp [AwaitsIntake, h.calls, Option.any_eq_true]
  · simp [AwaitsOuttake, h.calls, Option.any_eq_true]

theorem reply {x : Reply} (h : Stands (.call n) a b p q) : Placed n none p (q.reply n x) :=
  ⟨fun s => by simp [mem_reply], h.reply⟩

theorem setCall (h : Stands (.call n) u.sends u.isInjecting p q) (hm : (n, s) ∈ q.calls) :
    Placed n (some u) p (q.setCall n u) := by
  refine ⟨fun v => ?_, h.intake, h.outtake⟩
  simp only [mem_setCall, ne_eq, not_true_eq_false, false_and, or_false, true_and,
    Option.some.injEq]
  exact ⟨fun hv => hv.1.symm, fun hv => ⟨hv.symm, s, hm⟩⟩

theorem addCall (h : Stands (.call n) u.sends u.isInjecting p q) (hn : ∀ s, (n, s) ∉ q.calls) :
    Placed n (some u) p (q.addCall n u) := by
  refine ⟨fun v => ?_, h.intake, h.outtake⟩
  simp [mem_addCall, hn, eq_comm]

theorem queueFetchStop {r : Nat} (h : Stands (.call n) false false p q) (hm : (n, s) ∈ q.calls) :
    Placed n (some (.stopping r (q.now + q.ceiling))) p (q.queueFetchStop n r) := by
  have hjoined : Stands (.call n) true false p
      ({ q with intake := q.intake.join (.call n) }.record (.handoffBegan (.call n) .fetchStop)) :=
    ⟨h.intake.join, h.outtake⟩
  exact setCall hjoined hm

/-- Neither the calls nor the queues change. -/
theorem quiet {r : Pipeline} (h : Placed n stage p q) (hc : r.calls = q.calls)
    (hi : r.intake = q.intake) (ho : r.outtake = q.outtake) : Placed n stage p r :=
  ⟨fun s => hc ▸ h.calls s, hi ▸ h.stands.intake, ho ▸ h.stands.outtake⟩

theorem afterOfferPoll {item : WorkItem} {wait : Wait} {v : Pipeline × Verdict}
    (h : Stands (.call n) false v.2.isInjecting p v.1) (hm : (n, s) ∈ v.1.calls) :
    ∃ stage, Placed n stage p (afterOfferPoll n item wait v) := by
  obtain ⟨q, v⟩ := v
  cases v with
  | failed e => exact ⟨none, .reply h⟩
  | injecting i => exact ⟨_, .setCall (u := .offerInjecting item wait i) h hm⟩
  | active r =>
    exact ⟨_, .setCall (u := .sending item (wait.timeout q.now)) ⟨h.intake.join, h.outtake⟩ hm⟩

theorem afterCheckPoll {v : Pipeline × Verdict}
    (h : Stands (.call n) false v.2.isInjecting p v.1) (hm : (n, s) ∈ v.1.calls) :
    ∃ stage, Placed n stage p (afterCheckPoll n v) := by
  obtain ⟨q, v⟩ := v
  cases v with
  | failed e => exact ⟨none, .reply h⟩
  | active r => exact ⟨none, .reply h⟩
  | injecting i => exact ⟨_, .setCall (u := .checkInjecting i) h hm⟩

end Placed

namespace Lines

variable {p q : Pipeline} {n : Nat} {s : CallStage}

/-- Only calls stand in the line of the intake queue. -/
theorem exists_call (h : Lines p) {t : Task} (ht : t ∈ p.intake.senders) :
    ∃ n s, t = .call n ∧ (n, s) ∈ p.calls ∧ s.sends = true := by
  have hw := (h.intake.mem_iff t).mp ht
  cases t with
  | fetcher | emitter => exact hw.elim
  | call n =>
    obtain ⟨s, hs, hsends⟩ := hw
    exact ⟨n, s, rfl, hs, hsends⟩

theorem stands_call (h : Lines p) (hx : Sections p) (hm : (n, s) ∈ p.calls) :
    Stands (.call n) s.sends s.isInjecting p p := by
  refine .start h ⟨?_, fun hs => ⟨s, hm, hs⟩⟩ ⟨?_, fun hs => ⟨s, hm, hs⟩⟩
  · rintro ⟨u, hu, hs⟩
    rwa [hx.unique hm hu]
  · rintro ⟨u, hu, hs⟩
    rwa [hx.unique hm hu]

/-- A call without a stage stands in no line. -/
theorem stands_none (h : Lines p) (hn : ∀ s, (n, s) ∉ p.calls) :
    Stands (.call n) false false p p := by
  refine .start h ?_ ?_
  · simpa [AwaitsIntake] using fun s hs => absurd hs (hn s)
  · simpa [AwaitsOuttake] using fun s hs => absurd hs (hn s)

theorem stands_fetcher {i : Nat} {w : FetchStage} (h : Lines p) (hs : p.fetchStage? i = some w) :
    Stands (.fetcher i) false w.handsOver p p :=
  .start h (by simp [AwaitsIntake]) (by simp [AwaitsOuttake, hs])

theorem stands_emitter {j : Nat} (h : Lines p) : Stands (.emitter j) false false p p :=
  .start h (by simp [AwaitsIntake]) (by simp [AwaitsOuttake])

theorem invocation {r : Request} (h : Lines p) (hn : ∀ s, (n, s) ∉ p.calls)
    (hi : Invocation p n r q) : ∃ stage, Placed n stage p q := by
  have hp := h.stands_none hn
  cases hi with
  | start => exact ⟨_, .quiet (.addCall (u := .starting) hp hn) rfl rfl rfl⟩
  | check => exact ⟨_, .quiet (.addCall (u := .checking) hp hn) rfl rfl rfl⟩
  | status => exact ⟨_, .quiet (.addCall (u := .reading) hp hn) rfl rfl rfl⟩
  | @offer item wait => exact ⟨_, .quiet (.addCall (u := .offering item wait) hp hn) rfl rfl rfl⟩
  | @batch items wait =>
    exact ⟨_, .quiet (.addCall (u := .batching items wait) hp hn) rfl rfl rfl⟩
  | finish => exact ⟨_, .quiet (.addCall (u := .finishing) hp hn) rfl rfl rfl⟩
  | batchRefused | batchTooLarge | batchEmpty | finishEarly | finishLate => exact ⟨none, .reply hp⟩
  | finishAgain =>
    have hs : Stands (.call n) false false p { p with shuttingDown := true } :=
      ⟨hp.intake, hp.outtake⟩
    exact ⟨none, .reply hs⟩

theorem call (h : Lines p) (hx : Sections p) (hm : (n, s) ∈ p.calls) (hc : CallMove p n s q) :
    ∃ stage, Placed n stage p q := by
  have hp := h.stands_call hx hm
  cases hc with
  | startedBefore | offerRefused | unsent | batchRefused | noStops | read =>
    exact ⟨none, .reply hp⟩
  | launching => exact ⟨_, .setCall (u := .launching 0) hp hm⟩
  | @launchFetcher c =>
    exact ⟨_, .setCall (u := .launching (c + 1)) (q := p.launch _ _) ⟨hp.intake, hp.outtake⟩ hm⟩
  | @launchEmitter c =>
    exact ⟨_, .setCall (u := .launching (c + 1)) (q := p.launch _ _) ⟨hp.intake, hp.outtake⟩ hm⟩
  | opened => exact ⟨none, .quiet (.reply (x := .started) hp) rfl rfl rfl⟩
  | @offerAccepted item wait =>
    exact ⟨_, .quiet (.setCall (u := .offerPolling item wait) hp hm) rfl rfl rfl⟩
  | offerPolled =>
    have hcalls := (Polled.poll p (.call n)).calls
    exact Placed.afterOfferPoll (hp.poll (poll_result _ _)) (by rw [hcalls]; exact hm)
  | offerInjected hi =>
    have hi := inject?_injected hi
    exact Placed.afterOfferPoll (hp.injected hi) (by rw [(CallsKept.injected hi).calls]; exact hm)
  | @sent item deadline hs =>
    have hq : Stands (.call n) false false p
        { p with intake := p.intake.push (.call n) (.data item) } :=
      ⟨hp.intake.push hs, hp.outtake⟩
    exact ⟨none, .quiet (.reply (x := .started) hq) rfl rfl rfl⟩
  | @batchAdmitted _ items deadline hl hf =>
    have hq : Stands (.call n) s.sends s.isInjecting p
        { p with intake :=
            { p.intake with messages := p.intake.messages ++ items.map Message.data } } :=
      ⟨hp.intake.fill (by simpa using hf), hp.outtake⟩
    exact ⟨none, .quiet (.reply (x := .started) hq) rfl rfl rfl⟩
  | batchExpired => exact ⟨none, .quiet (.reply (x := .started) hp) rfl rfl rfl⟩
  | @batchPaused _ items deadline wake hl =>
    refine ⟨_, .quiet (.setCall (u := .pausing items wake deadline) ?_ hm) rfl rfl rfl⟩
    cases hl <;> exact hp
  | firstStop => exact ⟨_, .queueFetchStop hp hm⟩
  | lastStop hs =>
    have hq : Stands (.call n) false false p { p with intake := p.intake.push (.call n) .stop } :=
      ⟨hp.intake.push hs, hp.outtake⟩
    exact ⟨none, .quiet (.reply (x := .started) hq) rfl rfl rfl⟩
  | nextStop hs =>
    have hq : Stands (.call n) false false p
        ({ p with intake := p.intake.push (.call n) .stop }.record (.stopQueued .fetch)) :=
      ⟨hp.intake.push hs, hp.outtake⟩
    exact ⟨_, .queueFetchStop hq hm⟩
  | stopStalled =>
    have hq : Stands (.call n) false false p { p with intake := p.intake.leave (.call n) } :=
      ⟨hp.intake.leave, hp.outtake⟩
    exact ⟨_, .quiet (.setCall (u := .stallingOut) hq hm) rfl rfl rfl⟩
  | stalledOut =>
    have hq : Stands (.call n) false false p (p.fail (.stalled Cargo.fetchStop.label p.ceiling)) :=
      ⟨hp.intake, hp.outtake⟩
    exact ⟨none, .reply hq⟩
  | checked =>
    have hcalls := (Polled.poll p (.call n)).calls
    exact Placed.afterCheckPoll (hp.poll (poll_result _ _)) (by rw [hcalls]; exact hm)
  | checkInjected hi =>
    have hi := inject?_injected hi
    exact Placed.afterCheckPoll (hp.injected hi) (by rw [(CallsKept.injected hi).calls]; exact hm)

theorem fetcher {i : Nat} {w : Fetcher} (h : Lines p) (hw : p.fetchers[i]? = some w)
    (hf : FetcherMove p i w q) : ∃ u, q.fetchStage? i = some u ∧
      Stands (.fetcher i) false u.handsOver p q := by
  have hs : p.fetchStage? i = some w.stage := by simp [fetchStage?, hw]
  have hp := h.stands_fetcher hs
  cases hf with
  | abort | notCreated => exact ⟨_, fetchStage?_endFetcher hs, hp.endFetcher⟩
  | create hst =>
    rw [hst] at hp
    exact ⟨.creating, fetchStage?_of_setFetcher hs rfl, hp.intake, hp.outtake⟩
  | created hst =>
    rw [hst] at hp
    exact ⟨.queuing, fetchStage?_of_setFetcher hs rfl, hp.intake, hp.outtake⟩
  | acquire hst =>
    rw [hst] at hp
    exact ⟨_, fetchStage?_of_setFetcher hs rfl, hp.intake, hp.outtake⟩
  | @receiveStop d ms hst hm =>
    have hq : Stands (.fetcher i) false w.stage.handsOver p
        { p.record (.received i .stop) with
          intake := { p.intake with messages := ms }
          intakeLock := p.intakeLock.release (.fetcher i) } :=
      ⟨hp.intake.take hm, hp.outtake⟩
    exact ⟨_, fetchStage?_endFetcher hs, hq.endFetcher⟩
  | receiveItem hst hm =>
    rw [hst] at hp
    exact ⟨_, fetchStage?_of_setFetcher hs rfl, hp.intake.take hm, hp.outtake⟩
  | idle hst =>
    rw [hst] at hp
    exact Stands.tryPoll (q := { p with intakeLock := _ }) ⟨hp.intake, hp.outtake⟩ hs
  | handOver hst =>
    rw [hst] at hp
    exact ⟨.handing _ _ _ _, fetchStage?_of_setFetcher hs rfl, hp.intake, hp.outtake.join⟩
  | settle hst =>
    rw [hst] at hp
    exact Stands.tryPoll (q := { Pipeline.record _ _ with totalProcessed := _ })
      ⟨hp.intake, hp.outtake⟩ hs
  | lose hst =>
    exact ⟨_, fetchStage?_endFetcher hs, Stands.endFetcher (q := p.record _)
      ⟨hp.intake, hp.outtake⟩⟩
  | handed hst hq =>
    exact Stands.tryPoll (q := { Pipeline.record _ _ with totalProcessed := _ })
      ⟨hp.intake, hp.outtake.push hq⟩ hs
  | stalled hst =>
    exact ⟨_, fetchStage?_endFetcher hs, Stands.endFetcher (q := Pipeline.record _ _)
      ⟨hp.intake, hp.outtake.leave⟩⟩
  | injected hst hi =>
    have hi := inject?_injected hi
    have hst : _ := (Idles.injected (t := .fetcher i) hi).stage i rfl
    refine Stands.afterFetcherPoll (hp.injected hi) (s := w.stage) ?_
    rcases hst with he | ⟨hn, -⟩
    · exact he.trans hs
    · rw [hs] at hn; cases hn

theorem emitter {j : Nat} {w : EmitWorker} (h : Lines p) (he : EmitterMove p j w q) :
    Stands (.emitter j) false false p q := by
  have hp := h.stands_emitter (j := j)
  cases he with
  | abort => exact Stands.endWorker (q := p.setEmitter j .exited) ⟨hp.intake, hp.outtake⟩
  | queue | acquire | delivered => exact ⟨hp.intake, hp.outtake⟩
  | takeStop hst hm =>
    exact Stands.endWorker (q := Pipeline.setEmitter _ j .exited)
      ⟨hp.intake, hp.outtake.take hm⟩
  | takePayload hst hm => exact ⟨hp.intake, hp.outtake.take hm⟩
  | failed => exact Stands.endWorker (q := Pipeline.setEmitter _ j .exited) ⟨hp.intake, hp.outtake⟩

theorem move (h : Lines p) (hx : Sections p) (hm : Move p q) : Lines q := by
  have hset := hm.settings
  cases hm with
  | @invoke n r q hn hi =>
    obtain ⟨stage, hq⟩ := invocation (p := p.record (.invoked n r)) ⟨h.intake, h.outtake⟩ hn hi
    exact hq.lines hset (fun m hm => hi.waits hm) fun i => hi.idles
  | @cancel n stage hm hs =>
    have hp : Placed n none p (p.reply n .started) := .reply (h.stands_call hx hm)
    have hq : Placed n none p ({ p.release (.call n) with
        calls := p.calls.filter (·.1 ≠ n) }.record (.cancelled n)) :=
      hp.quiet rfl rfl rfl
    refine hq.lines hset (fun m hm => ?_) fun i => .single rfl rfl (by simp)
    exact .leave (.refl p) hm rfl rfl (by simpa using hm.symm)
  | close =>
    have hp : Stands (.emitter 0) false false p p := h.stands_emitter
    have hq : Stands (.emitter 0) false false p p.close := by
      unfold Pipeline.close
      split <;> exact ⟨hp.intake, hp.outtake⟩
    exact hq.lines hset (by simp [AwaitsIntake]) (by simp [AwaitsOuttake])
      (fun n _ => .of_kept (.close p)) fun i _ => close_idles p
  | drop =>
    have hp : Stands (.emitter 0) false false p p := h.stands_emitter
    have hq : Stands (.emitter 0) false false p p.drop := ⟨hp.intake, hp.outtake⟩
    exact hq.lines hset (by simp [AwaitsIntake]) (by simp [AwaitsOuttake])
      (fun n _ => .of_kept (.drop p)) fun i _ => drop_idles p
  | tick => exact ⟨h.intake, h.outtake⟩
  | @call n s q hm hc =>
    obtain ⟨stage, hq⟩ := h.call hx hm hc
    exact hq.lines hset (fun m hm => hc.waits hm) fun i => hc.idles
  | @fetcher i w q hw hf =>
    obtain ⟨u, hu, hq⟩ := h.fetcher hw hf
    exact hq.lines hset (by simp [AwaitsIntake]) (by simp [AwaitsOuttake, hu])
      (fun n _ => .of_kept hf.callsKept) fun k hk => hf.idles hk
  | @emitter j w q hw he =>
    exact (h.emitter he).lines hset (by simp [AwaitsIntake]) (by simp [AwaitsOuttake])
      (fun n _ => .of_kept he.callsKept) fun k hk => he.idles hk

end Lines

theorem lines_of_build {settings : Settings} {origin : Instant} {p : Pipeline}
    (h : build settings origin = .built p) : Lines p := by
  obtain ⟨-, -, rfl⟩ := build_eq_built h
  refine ⟨⟨rfl, Nat.zero_le _, List.nodup_nil, ?_⟩, ⟨rfl, Nat.zero_le _, List.nodup_nil, ?_⟩⟩
  · rintro (i | j | n) <;> simp [AwaitsIntake]
  · rintro (i | j | n) <;> simp [AwaitsOuttake, fetchStage?]

theorem Reaches.lines {settings : Settings} {origin : Instant} {p q : Pipeline}
    (h : p.Reaches q) (hb : build settings origin = .built p) : Lines q :=
  h.invariant (lines_of_build hb) fun _ _ hr ih hm => ih.move (hr.sections hb) hm

end Pipeline

end DocumentPipeline
