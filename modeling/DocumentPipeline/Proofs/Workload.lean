import DocumentPipeline.Proofs.Escapes
import DocumentPipeline.Proofs.Stages
import Mathlib.Algebra.GroupWithZero.Nat

/-! # The work that is left

The work left in a pipeline is a number: what still has to be done for each item, payload and
signal on its way, for each pending submission, and for each worker until it is collected. Every
advance is paid for out of it: the work left and the advances made so far, taken together, grow
by nothing but a new submission, a new announcement, or a check that is given up in the middle
of its injection.
-/
namespace DocumentPipeline

/-- Whether the event brings the work of the pipeline forward: a submission is answered, a signal
gets in, a worker receives a message, a collaborator returns, a payload is handed over, a worker
ends or is collected. -/
@[simp] def Event.advances : Event → Bool
  | replied _ (.offered _) | stopQueued _ | received _ _ | clientCreated _ | processEnded _ _ _
  | payloadQueued _ _ | taken _ _ | emitEnded _ _ _ | exited _ _ | collected _ _ => true
  | _ => false

/-- The number of advances on record. -/
def History.advances (h : History) : Nat := h.countP fun x => x.event.advances

@[simp] theorem History.advances_cons (x : Entry) (h : History) :
    advances (x :: h) = h.advances + if x.event.advances then 1 else 0 := by
  rw [advances, List.countP_cons, ← advances]

@[simp] def Request.submits : Request → Bool
  | offer _ _ | offerBatch _ _ => true
  | _ => false

/-- What is left to do for a message on its queue, if its content takes so much. -/
@[simp] def Message.work {α : Type} (content : Nat) : Message α → Nat
  | data _ => content
  | stop => 1

/-- What is left to do for a fetch worker and the item it has, its payload included. -/
@[simp] def FetchStage.work : FetchStage → Nat
  | launched | creating => 3
  | queuing | receiving _ | injecting _ => 2
  | processing _ _ => 6
  | handing _ _ _ _ => 5
  | exited => 0

/-- What is left to do for an emit worker and the payload it has. -/
@[simp] def EmitStage.work : EmitStage → Nat
  | launched | queuing | receiving => 2
  | emitting _ => 3
  | exited => 0

/-- What is left to do for a call: its items, or its stop signals. -/
@[simp] def CallStage.work (clients : Nat) : CallStage → Nat
  | offering _ _ | offerPolling _ _ | offerInjecting _ _ _ | sending _ _ => 6
  | batching items _ | pausing items _ _ => 5 * items.length + 1
  | finishing => 2 * clients + 2
  | stopping left _ => 2 * left + 2
  | checkInjecting i => 2 * i.remaining + 2
  | _ => 0

namespace Pipeline

section Totals

variable {α : Type} {l : List α} {i n : Nat} {s u : α}

theorem sum_map_set (f : α → Nat) (h : l[i]? = some u) :
    ((l.set i s).map f).sum + f u = (l.map f).sum + f s := by
  induction l generalizing i with
  | nil => simp at h
  | cons a l ih =>
    cases i with
    | zero =>
      obtain rfl : a = u := by simpa using h
      simp only [List.set_cons_zero, List.map_cons, List.sum_cons]
      omega
    | succ i =>
      have := ih (i := i) (by simpa using h)
      simp only [List.set_cons_succ, List.map_cons, List.sum_cons]
      omega

/-- A key that occurs once splits its list. -/
theorem split_of_key {l : List (Nat × α)} (hk : (l.map Prod.fst).Nodup) (hm : (n, s) ∈ l) :
    ∃ before after, l = before ++ (n, s) :: after ∧ (∀ c ∈ before, c.1 ≠ n) ∧
      ∀ c ∈ after, c.1 ≠ n := by
  obtain ⟨before, after, rfl⟩ := List.append_of_mem hm
  rw [List.map_append, List.map_cons, List.nodup_append, List.nodup_cons] at hk
  obtain ⟨-, ⟨hafter, -⟩, hbefore⟩ := hk
  refine ⟨before, after, rfl, fun c hc he => ?_, fun c hc he => ?_⟩
  · exact hbefore c.1 (List.mem_map_of_mem hc) n List.mem_cons_self he
  · exact hafter (List.mem_map.mpr ⟨c, hc, he⟩)

theorem sum_map_replace {l : List (Nat × α)} (f : α → Nat) (hk : (l.map Prod.fst).Nodup)
    (hm : (n, s) ∈ l) :
    ((l.map fun c => if c.1 = n then (n, u) else c).map fun c => f c.2).sum + f s =
      (l.map fun c => f c.2).sum + f u := by
  obtain ⟨before, after, rfl, hbefore, hafter⟩ := split_of_key hk hm
  have same {m : List (Nat × α)} (hn : ∀ c ∈ m, c.1 ≠ n) :
      (m.map fun c => if c.1 = n then (n, u) else c) = m :=
    List.map_congr_left (fun c hc => by simp [hn c hc]) |>.trans (List.map_id m)
  simp only [List.map_append, List.map_cons, if_true, List.sum_append, List.sum_cons,
    same hbefore, same hafter]
  omega

theorem sum_map_remove {l : List (Nat × α)} (f : α → Nat) (hk : (l.map Prod.fst).Nodup)
    (hm : (n, s) ∈ l) :
    ((l.filter fun c => c.1 ≠ n).map fun c => f c.2).sum + f s = (l.map fun c => f c.2).sum := by
  obtain ⟨before, after, rfl, hbefore, hafter⟩ := split_of_key hk hm
  have same {m : List (Nat × α)} (hn : ∀ c ∈ m, c.1 ≠ n) : (m.filter fun c => c.1 ≠ n) = m :=
    List.filter_eq_self.mpr fun c hc => by simpa using hn c hc
  rw [List.filter_append, same hbefore, List.filter_cons, if_neg (by simp), same hafter]
  simp only [List.map_append, List.map_cons, List.sum_append, List.sum_cons]
  omega

end Totals

/-- A quantity of the fetch workers, summed up. -/
def fetchTotal (f : FetchStage → Nat) (p : Pipeline) : Nat := (p.fetchStages.map f).sum

/-- A quantity of the emit workers, summed up. -/
def emitTotal (f : EmitStage → Nat) (p : Pipeline) : Nat := (p.emitStages.map f).sum

/-- A quantity of the pending calls, summed up. -/
def callTotal (f : CallStage → Nat) (p : Pipeline) : Nat := (p.calls.map fun c => f c.2).sum

section Totals

variable {p q : Pipeline} {i j n : Nat} {e : Ending} {f : FetchStage → Nat} {g : EmitStage → Nat}
  {k : CallStage → Nat}

theorem fetchTotal_setFetcher {s u : FetchStage} (h : p.fetchStage? i = some u) :
    (p.setFetcher i s).fetchTotal f + f u = p.fetchTotal f + f s := by
  rw [fetchTotal, fetchStages_setFetcher]
  exact sum_map_set f (by rw [getElem?_fetchStages, h])

theorem emitTotal_setEmitter {s u : EmitStage} (h : p.emitStage? j = some u) :
    (p.setEmitter j s).emitTotal g + g u = p.emitTotal g + g s := by
  rw [emitTotal, emitStages_setEmitter]
  exact sum_map_set g (by rw [getElem?_emitStages, h])

theorem callTotal_setCall {s u : CallStage} (hk : (p.calls.map Prod.fst).Nodup)
    (hm : (n, s) ∈ p.calls) : (p.setCall n u).callTotal k + k s = p.callTotal k + k u :=
  sum_map_replace k hk hm

theorem callTotal_reply {s : CallStage} {a : Reply} (hk : (p.calls.map Prod.fst).Nodup)
    (hm : (n, s) ∈ p.calls) : (p.reply n a).callTotal k + k s = p.callTotal k :=
  sum_map_remove k hk hm

theorem callTotal_addCall {u : CallStage} :
    (p.addCall n u).callTotal k = p.callTotal k + k u := by
  simp [callTotal, addCall]

theorem SameStages.fetchTotal (h : SameStages p q) : q.fetchTotal f = p.fetchTotal f := by
  rw [Pipeline.fetchTotal, Pipeline.fetchTotal, h.1]

theorem SameStages.emitTotal (h : SameStages p q) : q.emitTotal g = p.emitTotal g := by
  rw [Pipeline.emitTotal, Pipeline.emitTotal, h.2]

end Totals

/-- What is left to do for the emit stop signals, as long as no check injects them. -/
def signalsDue (p : Pipeline) : Nat :=
  if p.tracker.emitStopSent || p.calls.any (·.2.isInjecting) then 0
  else 2 * p.settings.numEmitters.toNat + 2

/-- What is left to do for the messages on the queues and for the workers that ended. -/
def stock (p : Pipeline) : Nat :=
  (p.intake.messages.map (Message.work 5)).sum + (p.outtake.messages.map (Message.work 2)).sum +
    p.tracker.exits.length

/-- The work that is left. -/
def work (p : Pipeline) : Nat :=
  p.fetchTotal FetchStage.work + p.emitTotal EmitStage.work +
    p.callTotal (CallStage.work p.settings.numClients.toNat) + p.stock + p.signalsDue

/-- The work that is left and the advances made, taken together. -/
def balance (p : Pipeline) : Nat := p.work + p.history.advances

section Signals

variable {p q : Pipeline} {n : Nat} {s : CallStage}

theorem signalsDue_eq_zero (h : p.tracker.emitStopSent = true ∨
    ∃ n s, (n, s) ∈ p.calls ∧ s.isInjecting = true) : p.signalsDue = 0 := by
  refine if_pos ?_
  rcases h with h | ⟨n, s, hm, hs⟩
  · simp [h]
  · simp only [Bool.or_eq_true, List.any_eq_true]
    exact .inr ⟨(n, s), hm, hs⟩

theorem signalsDue_of_uninjected (h : Uninjected p) (hs : p.tracker.emitStopSent = false) :
    p.signalsDue = 2 * p.settings.numEmitters.toNat + 2 := by
  refine if_neg ?_
  simpa [hs] using fun n s => h n s

/-- As long as no injection is given up, no signal becomes due again. -/
theorem signalsDue_le (hset : q.settings = p.settings)
    (hs : p.tracker.emitStopSent = true → q.tracker.emitStopSent = true)
    (hc : ∀ n s, (n, s) ∈ p.calls → s.isInjecting = true →
      q.tracker.emitStopSent = true ∨ ∃ u, (n, u) ∈ q.calls ∧ u.isInjecting = true) :
    q.signalsDue ≤ p.signalsDue := by
  by_cases hp : p.tracker.emitStopSent = true
  · rw [signalsDue_eq_zero (.inl (hs hp))]
    exact Nat.zero_le _
  · by_cases hn : Uninjected p
    · rw [signalsDue_of_uninjected hn (by simpa using hp), ← hset]
      unfold signalsDue
      split <;> omega
    · simp only [Uninjected, not_forall, Bool.not_eq_false] at hn
      obtain ⟨n, s, hm, hi⟩ := hn
      rw [signalsDue_eq_zero ((hc n s hm hi).imp_right fun ⟨u, hu⟩ => ⟨n, u, hu⟩)]
      exact Nat.zero_le _

end Signals

/-- What the balance is made up of, apart from the calls and the signals that are due. -/
def assets (p : Pipeline) : Nat :=
  p.fetchTotal FetchStage.work + p.emitTotal EmitStage.work + p.stock + p.history.advances

theorem balance_eq (p : Pipeline) :
    p.balance = p.assets + p.callTotal (CallStage.work p.settings.numClients.toNat) +
      p.signalsDue := by
  simp only [balance, work, assets]
  omega

section Assets

variable {p q : Pipeline} {i j n : Nat} {t : Task} {e : Ending}

theorem assets_record {e : Event} :
    (p.record e).assets = p.assets + if e.advances then 1 else 0 := by
  have hr : (p.record e).assets = p.fetchTotal FetchStage.work + p.emitTotal EmitStage.work +
    p.stock + History.advances (⟨p.now, e⟩ :: p.history) := rfl
  rw [hr, assets, History.advances_cons]
  exact (Nat.add_assoc _ _ _).symm

theorem assets_advance {e : Event} (h : e.advances = true) :
    (p.record e).assets = p.assets + 1 := by
  rw [assets_record, if_pos h]

theorem assets_aside {e : Event} (h : e.advances = false) : (p.record e).assets = p.assets := by
  rw [assets_record, h, if_neg Bool.false_ne_true, Nat.add_zero]

theorem assets_setFetcher {s u : FetchStage} (h : p.fetchStage? i = some u) :
    (p.setFetcher i s).assets + u.work = p.assets + s.work := by
  have ht := fetchTotal_setFetcher (f := FetchStage.work) (s := s) h
  have hr : (p.setFetcher i s).assets = (p.setFetcher i s).fetchTotal FetchStage.work +
    p.emitTotal EmitStage.work + p.stock + p.history.advances := rfl
  rw [hr, assets]
  omega

theorem assets_setEmitter {s u : EmitStage} (h : p.emitStage? j = some u) :
    (p.setEmitter j s).assets + u.work = p.assets + s.work := by
  have ht := emitTotal_setEmitter (g := EmitStage.work) (s := s) h
  have hr : (p.setEmitter j s).assets = p.fetchTotal FetchStage.work +
    (p.setEmitter j s).emitTotal EmitStage.work + p.stock + p.history.advances := rfl
  rw [hr, assets]
  omega

/-- A worker that ends has to be collected. -/
theorem assets_endWorker : (p.endWorker t e).assets = p.assets + 2 := by
  have hr : (p.endWorker t e).assets =
    p.fetchTotal FetchStage.work + p.emitTotal EmitStage.work +
    ((p.intake.messages.map (Message.work 5)).sum + (p.outtake.messages.map (Message.work 2)).sum +
      (p.tracker.exits ++ [(t, e)]).length) +
    History.advances (⟨p.now, .exited t e⟩ :: p.history) := rfl
  rw [hr, assets, stock, History.advances_cons]
  simp
  omega

theorem assets_endFetcher {w : Fetcher} {u : FetchStage} (h : p.fetchStage? i = some u) :
    (p.endFetcher i w e).assets + u.work = p.assets + 2 := by
  have released {r : Pipeline} (hr : r.fetchStage? i = some u) (ha : r.assets = p.assets) :
      ((r.setFetcher i .exited).endWorker (.fetcher i) e).assets + u.work = p.assets + 2 := by
    have := assets_setFetcher (s := .exited) hr
    rw [show FetchStage.exited.work = 0 from rfl] at this
    rw [assets_endWorker]
    omega
  unfold endFetcher
  dsimp only
  split
  · exact released (r := p.record _) h (assets_aside rfl)
  · exact released h rfl

theorem assets_endEmitter {u : EmitStage} (h : p.emitStage? j = some u) :
    (p.endEmitter j e).assets + u.work = p.assets + 2 := by
  have := assets_setEmitter (s := .exited) h
  rw [show EmitStage.exited.work = 0 from rfl] at this
  rw [endEmitter, assets_endWorker]
  omega

theorem assets_abortAll : p.abortAll.assets = p.assets := by
  have hs := SameStages.abortAll p
  have hr : p.abortAll.assets = p.abortAll.fetchTotal FetchStage.work +
    p.abortAll.emitTotal EmitStage.work + p.stock + p.history.advances := rfl
  rw [hr, assets, hs.fetchTotal, hs.emitTotal]

theorem assets_fail (f : Failure) : (p.fail f).assets = p.assets :=
  (show _ = p.abortAll.assets from assets_aside rfl).trans assets_abortAll

/-- Collecting a worker is an advance, and it is paid for. -/
theorem assets_countExit {rest : List (Task × Ending)} (h : p.tracker.exits = (t, e) :: rest) :
    ({ p with tracker := { p.tracker with exits := rest } }.countExit t e).assets = p.assets := by
  have hexits : ({ p with tracker := { p.tracker with exits := rest } }.countExit t
      e).tracker.exits = rest := by
    simp only [countExit, record]
    split <;> rfl
  have hr : ({ p with tracker := { p.tracker with exits := rest } }.countExit t e).assets =
    p.fetchTotal FetchStage.work + p.emitTotal EmitStage.work +
    ((p.intake.messages.map (Message.work 5)).sum + (p.outtake.messages.map (Message.work 2)).sum +
      ({ p with tracker := { p.tracker with exits := rest } }.countExit t e).tracker.exits.length) +
    History.advances (⟨p.now, .collected t e⟩ :: p.history) := rfl
  rw [hr, assets, stock, hexits, h, History.advances_cons]
  simp
  omega

theorem assets_collectFrom {exits : List (Task × Ending)} (h : p.tracker.exits = exits) :
    (p.collectFrom exits).1.assets = p.assets := by
  induction exits generalizing p with
  | nil => rfl
  | cons x rest ih =>
    obtain ⟨t, e⟩ := x
    have hc := assets_countExit h
    rw [collectFrom]
    split
    · refine (ih ?_).trans hc
      simp only [countExit, record]
      split <;> rfl
    · exact (assets_fail _).trans hc

theorem assets_of_collect {f : Option Failure} (hc : p.collect = (q, f)) :
    q.assets = p.assets := by
  have := assets_collectFrom (p := p) rfl
  rwa [show p.collectFrom p.tracker.exits = (q, f) from hc] at this

/-- A poll neither makes nor saves work. -/
theorem assets_poll : (p.poll t).1.assets = p.assets := by
  have hr := poll_result p t
  generalize p.poll t = v at hr
  cases hr with
  | notStarted | latched => rfl
  | failed _ _ hc | active _ _ hc => exact assets_of_collect hc
  | @injecting r _ _ hc | @noEmitters r _ _ hc =>
    exact (show _ = r.assets from rfl).trans (assets_of_collect hc)

theorem assets_afterFetcherPoll {w : Fetcher} {u : FetchStage} {v : Pipeline × Verdict}
    (h : v.1.fetchStage? i = some u) :
    (afterFetcherPoll i w v).assets + u.work = v.1.assets + 2 := by
  obtain ⟨q, v⟩ := v
  cases v with
  | failed err => exact assets_endFetcher h
  | active b => exact assets_setFetcher (s := .queuing) h
  | injecting k => exact assets_setFetcher (s := .injecting k) h

theorem assets_tryPoll {w : Fetcher} {u : FetchStage} (h : p.fetchStage? i = some u) :
    (p.tryPoll i w).assets + u.work = p.assets + 2 := by
  unfold tryPoll
  dsimp only
  split
  · have hp : ((p.requestTracker (.fetcher i)).poll (.fetcher i)).1.assets = p.assets :=
      assets_poll
    have hstage : ((p.requestTracker (.fetcher i)).poll (.fetcher i)).1.fetchStage? i = some u :=
      ((Polled.poll _ _).fetchStage i).trans h
    rw [assets_afterFetcherPoll hstage, hp]
  · exact assets_setFetcher (s := .queuing) h

/-- A message enters the intake queue. -/
theorem assets_fillIntake (ms : List (Message WorkItem)) (senders : List Task) :
    { p with intake := { p.intake with
        messages := p.intake.messages ++ ms, senders } }.assets =
      p.assets + (ms.map (Message.work 5)).sum := by
  have hr : { p with intake := { p.intake with
        messages := p.intake.messages ++ ms, senders } }.assets =
    p.fetchTotal FetchStage.work + p.emitTotal EmitStage.work +
    (((p.intake.messages ++ ms).map (Message.work 5)).sum +
      (p.outtake.messages.map (Message.work 2)).sum + p.tracker.exits.length) +
    p.history.advances := rfl
  rw [hr, assets, stock, List.map_append, List.sum_append]
  omega

/-- A message enters the outtake queue. -/
theorem assets_fillOuttake {m : Message Payload} :
    { p with outtake := p.outtake.push t m }.assets = p.assets + m.work 2 := by
  have hr : { p with outtake := p.outtake.push t m }.assets =
    p.fetchTotal FetchStage.work + p.emitTotal EmitStage.work +
    ((p.intake.messages.map (Message.work 5)).sum +
      ((p.outtake.messages ++ [m]).map (Message.work 2)).sum + p.tracker.exits.length) +
    p.history.advances := rfl
  rw [hr, assets, stock, List.map_append, List.sum_append]
  simp only [List.map_cons, List.map_nil, List.sum_cons, List.sum_nil]
  omega

/-- A message leaves the intake queue. -/
theorem assets_takeIntake {m : Message WorkItem} {ms : List (Message WorkItem)} {l : Lock}
    (h : p.intake.messages = m :: ms) :
    { p with intake := { p.intake with messages := ms }, intakeLock := l }.assets + m.work 5 =
      p.assets := by
  have hr : { p with intake := { p.intake with messages := ms }, intakeLock := l }.assets =
    p.fetchTotal FetchStage.work + p.emitTotal EmitStage.work +
    ((ms.map (Message.work 5)).sum + (p.outtake.messages.map (Message.work 2)).sum +
      p.tracker.exits.length) + p.history.advances := rfl
  rw [hr, assets, stock, h, List.map_cons, List.sum_cons]
  omega

/-- A message leaves the outtake queue. -/
theorem assets_takeOuttake {m : Message Payload} {ms : List (Message Payload)} {l : Lock}
    (h : p.outtake.messages = m :: ms) :
    { p with outtake := { p.outtake with messages := ms }, outtakeLock := l }.assets + m.work 2 =
      p.assets := by
  have hr : { p with outtake := { p.outtake with messages := ms }, outtakeLock := l }.assets =
    p.fetchTotal FetchStage.work + p.emitTotal EmitStage.work +
    ((p.intake.messages.map (Message.work 5)).sum + (ms.map (Message.work 2)).sum +
      p.tracker.exits.length) + p.history.advances := rfl
  rw [hr, assets, stock, h, List.map_cons, List.sum_cons]
  omega

theorem assets_injected {k : Injection} {v : Pipeline × Verdict} (h : Injected p t k v) :
    v.1.assets ≤ p.assets + 2 := by
  have hpush : ({ p with outtake := p.outtake.push t .stop }.record
      (.stopQueued .emit)).assets = p.assets + 2 := by
    rw [assets_advance rfl, assets_fillOuttake]
    rfl
  cases h with
  | last => exact Nat.le_of_eq hpush
  | next => exact Nat.le_of_eq ((assets_aside rfl).trans hpush)
  | stalled _ _ hq =>
    subst hq
    have hf := assets_fail (p := { { p with outtake := p.outtake.leave t }.record
      (.handoffStalled t .emitStop) with tracker := { p.tracker with emitStopSent := true } })
    exact Nat.le_add_right_of_le (Nat.le_of_eq (hf _))

theorem assets_finishItem (w : Fetcher) {u : FetchStage} (item : WorkItem) (o : Outcome)
    (since : Nat) (h : p.fetchStage? i = some u) :
    (p.finishItem i w item o since).assets + u.work = p.assets + 2 := by
  have hr : (p.record (.reported i item o (p.now - since))).assets = p.assets := assets_aside rfl
  have ht := assets_tryPoll (w := w) (p := { p.record (.reported i item o (p.now - since)) with
    totalProcessed := p.totalProcessed + 1 }) h
  exact ht.trans (congrArg (· + 2) hr)

theorem assets_acceptMessage {w : Fetcher} {d : Nat} {m : Message WorkItem}
    {ms : List (Message WorkItem)} (hs : p.fetchStage? i = some (.receiving d))
    (hm : p.intake.messages = m :: ms) :
    ({ p with intake := { p.intake with messages := ms } }.acceptMessage i w m).assets =
      p.assets := by
  have htake := assets_takeIntake (l := p.intakeLock.release (.fetcher i)) hm
  generalize hr : ({ p with
    intake := { p.intake with messages := ms }
    intakeLock := p.intakeLock.release (.fetcher i) } : Pipeline) = r at htake
  have hrs : r.fetchStage? i = some (.receiving d) := by
    subst hr
    exact hs
  have hreceived : (r.record (.received i m)).assets = r.assets + 1 := assets_advance rfl
  cases m with
  | stop =>
    have hend := assets_endFetcher (p := r.record (.received i .stop)) (w := w) (e := .finished) hrs
    rw [hreceived] at hend
    simp only [FetchStage.work, Message.work] at hend htake
    subst hr
    exact Nat.add_right_cancel (hend.trans (congrArg (· + 2) htake))
  | data item =>
    have hset := assets_setFetcher (p := r.record (.received i (.data item)))
      (s := .processing item p.now) hrs
    have hbegan := assets_aside (p := (r.record (.received i (.data item))).setFetcher i
      (.processing item p.now)) (e := .processBegan i item) rfl
    rw [hreceived] at hset
    simp only [FetchStage.work, Message.work] at hset htake
    have hq := hbegan.trans (show _ = p.assets by omega)
    subst hr
    exact hq

/-- A fetch worker makes no work but what it has done. -/
theorem FetcherMove.assets_le {w : Fetcher} (h : FetcherMove p i w q)
    (hw : p.fetchers[i]? = some w) (hn : ∀ k, w.stage ≠ .injecting k) : q.assets ≤ p.assets := by
  have hs : p.fetchStage? i = some w.stage := by simp [fetchStage?, hw]
  cases h with
  | abort hx =>
    have hend := assets_endFetcher (w := w) (e := .aborted) hs
    have hpos : 2 ≤ w.stage.work := by
      cases hst : w.stage <;> simp_all
    omega
  | @notCreated ending hst =>
    have hend := assets_endFetcher (w := w) (e := ending) hs
    rw [hst] at hend
    simp only [FetchStage.work] at hend
    omega
  | create hst =>
    have hset := assets_setFetcher (s := .creating) hs
    rw [hst] at hset
    simp only [FetchStage.work] at hset
    omega
  | created hst =>
    have hr : (p.record (.clientCreated i)).assets = p.assets + 1 := assets_advance rfl
    have hset := assets_setFetcher (p := p.record (.clientCreated i)) (s := .queuing) hs
    rw [hst, hr] at hset
    simp only [FetchStage.work] at hset
    change (Pipeline.setFetcher _ i .queuing).assets ≤ _
    omega
  | acquire hst =>
    have hset := assets_setFetcher (s := .receiving (p.now + fetchPollTimeout)) hs
    rw [hst] at hset
    simp only [FetchStage.work] at hset
    omega
  | receiveStop hst hm | receiveItem hst hm =>
    rw [hst] at hs
    exact Nat.le_of_eq (assets_acceptMessage hs hm)
  | idle hst =>
    have htry := assets_tryPoll (w := w)
      (p := { p with intakeLock := p.intakeLock.release (.fetcher i) }) hs
    rw [hst] at htry
    exact Nat.le_of_eq (Nat.add_right_cancel htry)
  | @handOver item since r payload hst =>
    have hended : (p.record (.processEnded i item r)).assets = p.assets + 1 := assets_advance rfl
    have hset := assets_setFetcher (p := p.record (.processEnded i item r))
      (s := .handing item payload since (p.now + p.ceiling)) hs
    rw [hst, hended] at hset
    simp only [FetchStage.work] at hset
    exact Nat.le_of_eq (Nat.add_right_cancel hset)
  | @settle item since r outcome hst =>
    have hended : (p.record (.processEnded i item r)).assets = p.assets + 1 := assets_advance rfl
    have hfin := assets_finishItem (p := p.record (.processEnded i item r)) w item outcome since hs
    rw [hst, hended] at hfin
    simp only [FetchStage.work] at hfin
    omega
  | @lose item since r ending hst =>
    have hended : (p.record (.processEnded i item r)).assets = p.assets + 1 := assets_advance rfl
    have hend := assets_endFetcher (p := p.record (.processEnded i item r)) (w := w)
      (e := ending) hs
    rw [hst, hended] at hend
    simp only [FetchStage.work] at hend
    omega
  | @handed item payload since d hst =>
    have hpush := assets_fillOuttake (p := p) (t := .fetcher i) (m := .data payload)
    have hqueued := assets_advance (e := .payloadQueued i payload)
      (p := { p with outtake := p.outtake.push (.fetcher i) (.data payload) }) rfl
    have hfin := assets_finishItem w item (.parsed payload) since
      (p := { p with outtake := p.outtake.push (.fetcher i) (.data payload) }.record
        (.payloadQueued i payload)) hs
    rw [hst, hqueued, hpush] at hfin
    simp only [FetchStage.work, Message.work] at hfin
    omega
  | @stalled item payload since d hst =>
    have hstalled := assets_aside (e := .handoffStalled (.fetcher i) .emitData)
      (p := { p with outtake := p.outtake.leave (.fetcher i) }) rfl
    have hend := assets_endFetcher (w := w) (e := .failed (.stalled Cargo.emitData.label p.ceiling))
      (p := { p with outtake := p.outtake.leave (.fetcher i) }.record
        (.handoffStalled (.fetcher i) .emitData)) hs
    rw [hst, hstalled] at hend
    have hleave : ({ p with outtake := p.outtake.leave (.fetcher i) } : Pipeline).assets =
      p.assets := rfl
    simp only [FetchStage.work] at hend
    omega
  | injected hst => exact absurd hst (hn _)

theorem assets_queueEmitter : (p.queueEmitter j).assets = (p.setEmitter j .queuing).assets := rfl

/-- An emit worker makes no work but what it has done. -/
theorem EmitterMove.assets_le {w : EmitWorker} (h : EmitterMove p j w q)
    (hw : p.emitters[j]? = some w) : q.assets ≤ p.assets := by
  have hs : p.emitStage? j = some w.stage := by simp [emitStage?, hw]
  cases h with
  | abort hx =>
    have hend := assets_endEmitter (e := .aborted) hs
    have hpos : 2 ≤ w.stage.work := by
      cases hst : w.stage <;> simp_all
    omega
  | queue hst =>
    rw [hst] at hs
    rw [assets_queueEmitter]
    exact Nat.le_of_eq (Nat.add_right_cancel (m := 2) (assets_setEmitter hs))
  | acquire hst =>
    rw [hst] at hs
    exact Nat.le_of_eq (Nat.add_right_cancel (m := 2) (assets_setEmitter (s := .receiving) hs))
  | @takeStop ms hst hm =>
    have htake := assets_takeOuttake (l := p.outtakeLock.release (.emitter j)) hm
    have htaken := assets_advance (e := .taken j .stop) (p := { p with
      outtake := { p.outtake with messages := ms }
      outtakeLock := p.outtakeLock.release (.emitter j) }) rfl
    have hend := assets_endEmitter (e := .finished) (p := { p with
      outtake := { p.outtake with messages := ms }
      outtakeLock := p.outtakeLock.release (.emitter j) }.record (.taken j .stop)) hs
    rw [hst, htaken] at hend
    exact Nat.le_of_eq ((Nat.add_right_cancel hend).trans htake)
  | @takePayload payload ms hst hm =>
    have htake := assets_takeOuttake (l := p.outtakeLock.release (.emitter j)) hm
    have htaken := assets_advance (e := .taken j (.data payload)) (p := { p with
      outtake := { p.outtake with messages := ms }
      outtakeLock := p.outtakeLock.release (.emitter j) }) rfl
    have hset := assets_setEmitter (s := .emitting payload) (p := { p with
      outtake := { p.outtake with messages := ms }
      outtakeLock := p.outtakeLock.release (.emitter j) }.record (.taken j (.data payload))) hs
    rw [hst, htaken] at hset
    have hq := (Nat.add_right_cancel (m := 2) hset).trans htake
    exact Nat.le_of_eq ((assets_aside rfl).trans hq)
  | @delivered payload r hst =>
    have hended : (p.record (.emitEnded j payload r)).assets = p.assets + 1 := assets_advance rfl
    have hset := assets_setEmitter (p := p.record (.emitEnded j payload r)) (s := .queuing) hs
    rw [hst, hended] at hset
    rw [assets_queueEmitter]
    exact Nat.le_of_eq (Nat.add_right_cancel (m := 3) hset)
  | @failed payload r ending hst =>
    have hended : (p.record (.emitEnded j payload r)).assets = p.assets + 1 := assets_advance rfl
    have hend := assets_endEmitter (p := p.record (.emitEnded j payload r)) (e := ending) hs
    rw [hst, hended] at hend
    exact Nat.le_of_eq (Nat.add_right_cancel hend)

end Assets

section Calls

variable {p q r : Pipeline} {n k : Nat} {t : Task} {s u : CallStage}

/-- The calls are not touched. -/
theorem balance_le_of_calls (ha : q.assets ≤ p.assets + k) (hc : q.calls = p.calls)
    (hset : q.settings = p.settings)
    (hs : p.tracker.emitStopSent = true → q.tracker.emitStopSent = true) :
    q.balance ≤ p.balance + k := by
  have hdue := signalsDue_le hset hs fun m v hm hv => .inr ⟨v, hc ▸ hm, hv⟩
  rw [balance_eq, balance_eq, callTotal, hc, hset, ← callTotal]
  omega

theorem balance_le_of_assets (ha : q.assets ≤ p.assets) (hc : q.calls = p.calls)
    (hset : q.settings = p.settings)
    (hs : p.tracker.emitStopSent = true → q.tracker.emitStopSent = true) :
    q.balance ≤ p.balance := by
  have hle := balance_le_of_calls (k := 0) ha hc hset hs
  rwa [Nat.add_zero] at hle

/-- A call ends, and with it what was left to do for it. -/
theorem balance_leave (hk : (p.calls.map Prod.fst).Nodup) (hm : (n, s) ∈ p.calls)
    (hs : s.isInjecting = false ∨ p.tracker.emitStopSent = true)
    (hc : q.calls = p.calls.filter (·.1 ≠ n)) (ha : q.assets ≤ p.assets + k)
    (hset : q.settings = p.settings) (hsent : q.tracker.emitStopSent = p.tracker.emitStopSent) :
    q.balance + s.work p.settings.numClients.toNat ≤ p.balance + k := by
  have hcalls := sum_map_remove (CallStage.work p.settings.numClients.toNat) hk hm
  rw [← hc, ← callTotal, ← callTotal] at hcalls
  have hdue : q.signalsDue ≤ p.signalsDue := by
    refine signalsDue_le hset hsent.trans fun m v hv hi => ?_
    by_cases hmn : m = n
    · subst hmn
      obtain rfl : v = s := by simpa using List.inj_on_of_nodup_map hk hv hm rfl
      rcases hs with hf | hs
      · cases hf.symm.trans hi
      · exact .inl (hsent.trans hs)
    · refine .inr ⟨v, ?_, hi⟩
      rw [hc]
      exact List.mem_filter.mpr ⟨hv, by simpa using hmn⟩
  rw [balance_eq, balance_eq, hset]
  omega

/-- A submission is answered. -/
theorem balance_offered {a : Except PipelineError Bool} (hk : (p.calls.map Prod.fst).Nodup)
    (hm : (n, s) ∈ p.calls) (hs : s.isInjecting = false)
    (hw : 1 ≤ s.work p.settings.numClients.toNat) :
    (p.reply n (.offered a)).balance + (s.work p.settings.numClients.toNat - 1) ≤ p.balance := by
  have := balance_leave (q := p.reply n (.offered a)) hk hm (.inl hs) rfl
    (Nat.le_of_eq (assets_advance (p := { p.release (.call n) with
      calls := p.calls.filter (·.1 ≠ n) }) rfl)) rfl rfl
  omega

/-- Another call is answered. -/
theorem balance_answered {a : Reply} (hk : (p.calls.map Prod.fst).Nodup) (hm : (n, s) ∈ p.calls)
    (hs : s.isInjecting = false ∨ p.tracker.emitStopSent = true)
    (ha : (Event.replied n a).advances = false) :
    (p.reply n a).balance + s.work p.settings.numClients.toNat ≤ p.balance :=
  balance_leave (k := 0) hk hm hs rfl (Nat.le_of_eq (assets_aside (p := { p.release (.call n) with
    calls := p.calls.filter (·.1 ≠ n) }) ha)) rfl rfl

theorem balance_requestTracker {t : Task} : (p.requestTracker t).balance = p.balance := rfl

/-- A call moves on, and what is left to do for it changes. -/
theorem balance_setCall (hk : (p.calls.map Prod.fst).Nodup) (hm : (n, s) ∈ p.calls)
    (hs : s.isInjecting = false ∨ u.isInjecting = true) :
    (p.setCall n u).balance + s.work p.settings.numClients.toNat ≤
      p.balance + u.work p.settings.numClients.toNat := by
  have hassets : (p.setCall n u).assets = p.assets := rfl
  have hcalls := callTotal_setCall (k := CallStage.work p.settings.numClients.toNat) (u := u) hk hm
  have hdue : (p.setCall n u).signalsDue ≤ p.signalsDue := by
    refine signalsDue_le rfl id fun m v hv hi => .inr ?_
    by_cases hmn : m = n
    · subst hmn
      obtain rfl : v = s := by simpa using List.inj_on_of_nodup_map hk hv hm rfl
      refine ⟨u, mem_setCall.mpr (.inl ⟨rfl, rfl, v, hv⟩), ?_⟩
      rcases hs with hf | hu
      · exact absurd (hf.symm.trans hi) (by simp)
      · exact hu
    · exact ⟨v, mem_setCall.mpr (.inr ⟨hmn, hv⟩), hi⟩
  rw [balance_eq, balance_eq, show (p.setCall n u).settings = p.settings from rfl]
  omega

theorem sent_of_collect {f : Option Failure} (hc : p.collect = (q, f)) :
    q.tracker.emitStopSent = p.tracker.emitStopSent := by
  cases f with
  | none => exact (collects_of_collect hc).sent
  | some f =>
    obtain ⟨r, hr, rfl⟩ := collects_of_collect_failed hc
    exact hr.sent

theorem sent_poll (hs : p.tracker.emitStopSent = true) :
    (p.poll t).1.tracker.emitStopSent = true := by
  have hr := poll_result p t
  generalize p.poll t = v at hr
  cases hr with
  | notStarted | latched => exact hs
  | failed _ _ hc | active _ _ hc | injecting _ _ hc => exact (sent_of_collect hc).trans hs
  | noEmitters => rfl

theorem balance_poll : (p.poll t).1.balance ≤ p.balance :=
  balance_le_of_assets (Nat.le_of_eq assets_poll) (Polled.poll p t).calls
    (Polled.poll p t).settings sent_poll

/-- An offer has polled and has not come to an injection. -/
theorem balance_afterOfferPoll {item : WorkItem} {wait : Wait} {v : Pipeline × Verdict}
    (hk : (v.1.calls.map Prod.fst).Nodup) (hm : (n, .offerPolling item wait) ∈ v.1.calls)
    (hv : ∀ i, v.2 ≠ .injecting i) :
    (afterOfferPoll n item wait v).balance ≤ v.1.balance := by
  obtain ⟨q, v⟩ := v
  cases v with
  | failed e => exact Nat.le_of_add_right_le (balance_offered hk hm rfl (by simp))
  | active b =>
    have hset := balance_setCall (u := .sending item (wait.timeout q.now)) hk hm (.inl rfl)
    exact Nat.le_of_add_le_add_right (b := 6) hset
  | injecting i => exact absurd rfl (hv i)

/-- A check has polled, or its injection has come to an end. -/
theorem balance_afterCheckPoll {v : Pipeline × Verdict} (hk : (v.1.calls.map Prod.fst).Nodup)
    (hm : (n, s) ∈ v.1.calls)
    (hs : s.isInjecting = false ∨ v.1.tracker.emitStopSent = true)
    (hv : ∀ i, v.2 ≠ .injecting i) :
    (afterCheckPoll n v).balance + s.work v.1.settings.numClients.toNat ≤ v.1.balance := by
  obtain ⟨q, v⟩ := v
  cases v with
  | failed e | active b => exact balance_answered hk hm hs rfl
  | injecting i => exact absurd rfl (hv i)

/-- A check comes to the injection: the signals that were due are now its own. -/
theorem balance_beginInjection {i : Injection} (hk : (p.calls.map Prod.fst).Nodup)
    (hm : (n, .checking) ∈ p.calls) (hn : Uninjected p) (hs : p.tracker.emitStopSent = false)
    (hi : i.remaining = p.settings.numEmitters.toNat) :
    ((p.queueEmitStop (.call n) k).1.setCall n (.checkInjecting i)).balance ≤ p.balance := by
  have hassets : ((p.queueEmitStop (.call n) k).1.setCall n (.checkInjecting i)).assets =
    p.assets := assets_aside (p := { p with outtake := p.outtake.join (.call n) }) rfl
  have hcalls := callTotal_setCall (k := CallStage.work p.settings.numClients.toNat)
    (u := .checkInjecting i) hk hm
  have hdue := signalsDue_of_uninjected hn hs
  have hnone : ((p.queueEmitStop (.call n) k).1.setCall n (.checkInjecting i)).signalsDue = 0 :=
    signalsDue_eq_zero (.inr ⟨n, _, mem_setCall.mpr (.inl ⟨rfl, rfl, _, hm⟩), rfl⟩)
  rw [balance_eq, balance_eq, hassets, hnone, hdue]
  change p.assets + (p.setCall n (.checkInjecting i)).callTotal
    (CallStage.work p.settings.numClients.toNat) + 0 ≤ _
  simp only [CallStage.work, hi] at hcalls
  omega

/-- A signal that waits for its slot goes on. -/
theorem balance_injected {i : Injection} {v : Pipeline × Verdict} (h : Injected p t i v) :
    v.1.balance ≤ p.balance + 2 := by
  refine balance_le_of_calls (assets_injected h) ?_ ?_ ?_
  · exact (CallsKept.injected h).calls
  · exact (CallsKept.injected h).settings
  · cases h with
    | last | stalled => exact fun _ => rfl
    | next => exact id

/-- The items of a submission enter the intake queue, and its call is answered. -/
theorem balance_admission (items : List WorkItem) (senders : List Task)
    (hk : (p.calls.map Prod.fst).Nodup) (hm : (n, s) ∈ p.calls) (hs : s.isInjecting = false)
    (hw : 5 * items.length + 1 ≤ s.work p.settings.numClients.toNat) :
    (({ p with intake := { p.intake with
        messages := p.intake.messages ++ items.map Message.data, senders } }.record
      (.admitted n items)).reply n (.offered (.ok true))).balance ≤ p.balance := by
  have hsum : ((items.map Message.data).map (Message.work 5)).sum = 5 * items.length := by
    simp [Function.comp_def, Nat.mul_comm]
  have hfill := assets_fillIntake (p := p) (items.map Message.data) senders
  generalize hr : { p with intake := { p.intake with
    messages := p.intake.messages ++ items.map Message.data, senders } } = r at hfill ⊢
  have hcalls : r.calls = p.calls := hr ▸ rfl
  have hset : r.settings = p.settings := hr ▸ rfl
  have hb : (r.record (.admitted n items)).balance ≤ p.balance + 5 * items.length :=
    balance_le_of_calls (Nat.le_of_eq ((assets_aside rfl).trans (hfill.trans (by rw [hsum]))))
      hcalls hset (hr ▸ id)
  have hreply := balance_offered (a := .ok true) (p := r.record (.admitted n items))
    (by rw [show (r.record _).calls = p.calls from hcalls]; exact hk)
    (by rw [show (r.record _).calls = p.calls from hcalls]; exact hm) hs
    (by rw [show (r.record _).settings = p.settings from hset]; omega)
  rw [show (r.record _).settings = p.settings from hset] at hreply
  omega

theorem balance_aside {e : Event} (h : e.advances = false) : (p.record e).balance ≤ p.balance :=
  balance_le_of_assets (Nat.le_of_eq (assets_aside h)) rfl rfl id

theorem Looking.work {items : List WorkItem} {deadline : Option Nat}
    (h : Looking p n items deadline s) (clients : Nat) :
    s.isInjecting = false ∧ s.work clients = 5 * items.length + 1 := by
  cases h <;> exact ⟨rfl, rfl⟩

/-- A stop signal for a fetch worker gets its slot. -/
theorem balance_signalled :
    ({ p with intake := p.intake.push (.call n) .stop }.record (.stopQueued .fetch)).balance ≤
      p.balance + 2 := by
  have hfill := assets_fillIntake (p := p) [.stop] (p.intake.senders.erase (.call n))
  have hqueued := assets_advance (e := .stopQueued .fetch)
    (p := { p with intake := p.intake.push (.call n) .stop }) rfl
  exact balance_le_of_calls (Nat.le_of_eq (hqueued.trans (congrArg (· + 1) hfill))) rfl rfl id

/-- The announcement goes on to its next stop signal. -/
theorem balance_queueFetchStop {k : Nat} (hk : (p.calls.map Prod.fst).Nodup)
    (hm : (n, s) ∈ p.calls) (hs : s.isInjecting = false) :
    (p.queueFetchStop n k).balance + s.work p.settings.numClients.toNat ≤
      p.balance + (2 * k + 2) := by
  have hb : ({ p with intake := p.intake.join (.call n) }.record
      (.handoffBegan (.call n) .fetchStop)).balance ≤ p.balance :=
    balance_le_of_assets (Nat.le_of_eq (assets_aside rfl)) rfl rfl id
  have hset := balance_setCall (u := .stopping k (p.now + p.ceiling)) (n := n) (s := s)
    (p := { p with intake := p.intake.join (.call n) }.record
      (.handoffBegan (.call n) .fetchStop)) hk hm (.inl hs)
  exact Nat.le_trans hset (Nat.add_le_add_right hb _)

/-- A check polls, and may come to the injection. -/
theorem balance_checked (hx : Sections p) (hm : (n, .checking) ∈ p.calls)
    (held : p.trackerLock.heldBy (.call n) = true) :
    (afterCheckPoll n (p.poll (.call n))).balance ≤ p.balance := by
  have hcalls := (Polled.poll p (.call n)).calls
  have hb := balance_poll (p := p) (t := .call n)
  have hr := poll_result p (.call n)
  have hn := uninjected_of_held hx hm held rfl
  generalize p.poll (.call n) = v at hcalls hb hr ⊢
  have plain (hv : ∀ i, v.2 ≠ .injecting i) : (afterCheckPoll n v).balance ≤ p.balance :=
    Nat.le_trans (Nat.le_of_add_right_le (balance_afterCheckPoll (s := .checking)
      (by rw [hcalls]; exact hx.keys) (by rw [hcalls]; exact hm) (.inl rfl) hv)) hb
  cases hr with
  | notStarted | latched | failed | noEmitters | active =>
    exact plain fun i => by simp [endInjection]
  | @injecting q hs hf hc hnum he hpos =>
    have hq : q.balance ≤ p.balance :=
      balance_le_of_assets (Nat.le_of_eq (assets_of_collect hc))
        (Polled.of_collect hc).calls (Polled.of_collect hc).settings
        fun h => (sent_of_collect hc).trans h
    refine Nat.le_trans
      (balance_beginInjection (k := q.settings.numEmitters.toNat) ?_ ?_ ?_ he rfl) hq
    · rw [(Polled.of_collect hc).calls]; exact hx.keys
    · rw [(Polled.of_collect hc).calls]; exact hm
    · intro m u hu
      rw [(Polled.of_collect hc).calls] at hu
      exact hn m u hu

/-- A check goes on with its injection. -/
theorem balance_checkInjected {i : Injection} {v : Pipeline × Verdict}
    (hk : (p.calls.map Prod.fst).Nodup) (hm : (n, .checkInjecting i) ∈ p.calls)
    (h : Injected p (.call n) i v) : (afterCheckPoll n v).balance ≤ p.balance := by
  have hb := balance_injected h
  have hcalls := (CallsKept.injected h).calls
  have ended (hs : v.1.tracker.emitStopSent = true) (hv : ∀ i, v.2 ≠ .injecting i) :
      (afterCheckPoll n v).balance ≤ p.balance := by
    have := balance_afterCheckPoll (s := .checkInjecting i) (by rw [hcalls]; exact hk)
      (by rw [hcalls]; exact hm) (.inr hs) hv
    simp only [CallStage.work] at this
    omega
  cases h with
  | last => exact ended rfl (by simp [endInjection])
  | stalled => exact ended rfl (by simp)
  | next hslot hr =>
    generalize { p with outtake := p.outtake.push (.call n) .stop }.record (.stopQueued .emit) = r
      at hb hcalls ⊢
    have hq := balance_setCall (u := .checkInjecting ⟨i.remaining - 1, r.now + r.ceiling⟩)
      (p := (r.queueEmitStop (.call n) (i.remaining - 1)).1) (by rw [hcalls]; exact hk)
      (by rw [hcalls]; exact hm) (.inr rfl)
    simp only [CallStage.work] at hq
    exact show ((r.queueEmitStop (.call n) (i.remaining - 1)).1.setCall n
      (.checkInjecting ⟨i.remaining - 1, r.now + r.ceiling⟩)).balance ≤ p.balance by omega

theorem balance_fail {f : Failure} : (p.fail f).balance ≤ p.balance :=
  balance_le_of_assets (Nat.le_of_eq (assets_fail f)) rfl rfl id

/-- The announcement waits with a stop signal. -/
theorem balance_stopping {left deadline : Nat} (hk : (p.calls.map Prod.fst).Nodup)
    (hm : (n, .stopping left deadline) ∈ p.calls)
    (h : CallMove p n (.stopping left deadline) q) : q.balance ≤ p.balance := by
  cases h with
  | batchAdmitted hl | batchExpired hl | batchPaused hl => cases hl
  | lastStop =>
    have hb := balance_signalled (p := p) (n := n)
    have hreply := balance_answered (a := .finished (.ok ())) (p := { p with
      intake := p.intake.push (.call n) .stop }.record (.stopQueued .fetch)) hk hm (.inl rfl) rfl
    simp only [CallStage.work] at hreply
    omega
  | nextStop _ hr =>
    have hb := balance_signalled (p := p) (n := n)
    have hnext := balance_queueFetchStop (k := left - 1) (p := { p with
      intake := p.intake.push (.call n) .stop }.record (.stopQueued .fetch)) hk hm rfl
    simp only [CallStage.work] at hnext
    omega
  | stopStalled =>
    have hset := balance_setCall (u := .stallingOut) (p := { p with
      intake := p.intake.leave (.call n) }.record (.handoffStalled (.call n) .fetchStop)) hk hm
      (.inl rfl)
    rw [balance_requestTracker]
    exact Nat.le_trans (Nat.le_of_add_right_le hset) (balance_aside rfl)

theorem CallMove.balance_le (h : CallMove p n s q) (hx : Sections p) (hp : Handshake p)
    (hq : Handshake q) (hs : ∀ c, s ≠ .launching c) (hstarted : p.started = true)
    (hm : (n, s) ∈ p.calls) : q.balance ≤ p.balance := by
  have hk := hx.keys
  have hc := h
  cases h with
  | launchFetcher | launchEmitter | opened => exact absurd rfl (hs _)
  | launching _ hn => cases hn.symm.trans hstarted
  | startedBefore | noStops | read =>
    exact Nat.le_of_add_right_le (balance_answered hk hm (.inl rfl) rfl)
  | offerRefused | unsent | batchRefused =>
    exact Nat.le_of_add_right_le (balance_offered hk hm rfl (by simp))
  | offerAccepted =>
    rw [balance_requestTracker]
    exact Nat.le_of_add_le_add_right (b := 6) (balance_setCall hk hm (.inl rfl))
  | @offerPolled item wait =>
    have hcalls := (Polled.poll p (.call n)).calls
    have hb := balance_poll (p := p) (t := .call n)
    generalize p.poll (.call n) = v at hcalls hb hq ⊢
    refine Nat.le_trans (balance_afterOfferPoll (by rw [hcalls]; exact hk)
      (by rw [hcalls]; exact hm) fun i hi => ?_) hb
    obtain ⟨r, v⟩ := v
    obtain rfl : v = .injecting i := hi
    exact hq.offer n item wait i (mem_setCall.mpr (.inl ⟨rfl, rfl, _, hcalls ▸ hm⟩))
  | offerInjected => exact absurd hm (hp.offer _ _ _ _)
  | @sent item deadline =>
    exact balance_admission [item] _ hk hm rfl (by simp)
  | batchAdmitted hl =>
    have hw := hl.work p.settings.numClients.toNat
    exact Nat.le_trans (balance_admission (p := p.record (.tested n p.intake.free)) _
      p.intake.senders hk hm hw.1 (Nat.le_of_eq hw.2.symm)) (balance_aside rfl)
  | batchExpired hl =>
    have hw := hl.work p.settings.numClients.toNat
    exact Nat.le_trans (Nat.le_of_add_right_le (balance_offered (a := .ok false)
      (p := p.record (.tested n p.intake.free)) hk hm hw.1 (by
        rw [show (p.record _).settings = p.settings from rfl]; omega))) (balance_aside rfl)
  | @batchPaused _ items deadline wake hl =>
    have hw := hl.work p.settings.numClients.toNat
    have hset := balance_setCall (u := .pausing items wake deadline)
      (p := p.record (.tested n p.intake.free)) hk hm (.inl hw.1)
    rw [show s.work (p.record (.tested n p.intake.free)).settings.numClients.toNat = _ from
      hw.2] at hset
    exact Nat.le_trans (Nat.le_of_add_le_add_right hset) (balance_aside rfl)
  | firstStop =>
    exact Nat.le_of_add_le_add_right (balance_queueFetchStop hk hm rfl)
  | lastStop | nextStop | stopStalled => exact balance_stopping hk hm hc
  | stalledOut =>
    exact Nat.le_trans (Nat.le_of_add_right_le (balance_answered hk hm (.inl rfl) rfl)) balance_fail
  | checked held => exact balance_checked hx hm held
  | checkInjected hi => exact balance_checkInjected hk hm (inject?_injected hi)

end Calls

section Steps

variable {p q p₀ : Pipeline} {i j n : Nat} {t : Task} {settings : Settings} {origin : Instant}
  {a : Action}

theorem sent_poll_eq (hpos : 0 < p.settings.numEmitters.toNat) :
    (p.poll t).1.tracker.emitStopSent = p.tracker.emitStopSent := by
  have hr := poll_result p t
  generalize p.poll t = v at hr
  cases hr with
  | notStarted | latched => rfl
  | failed _ _ hc | active _ _ hc => exact sent_of_collect hc
  | injecting _ _ hc => exact (rfl.trans (sent_of_collect hc) :)
  | noEmitters _ _ hc hz =>
    rw [(Polled.of_collect hc).settings] at hz
    omega

theorem sent_endFetcher {w : Fetcher} {e : Ending} :
    (p.endFetcher i w e).tracker.emitStopSent = p.tracker.emitStopSent := by
  unfold endFetcher
  dsimp only
  split <;> rfl

theorem sent_afterFetcherPoll {w : Fetcher} {v : Pipeline × Verdict} :
    (afterFetcherPoll i w v).tracker.emitStopSent = v.1.tracker.emitStopSent := by
  obtain ⟨q, v⟩ := v
  cases v with
  | failed e => exact sent_endFetcher
  | active b | injecting k => rfl

theorem sent_tryPoll {w : Fetcher} (hpos : 0 < p.settings.numEmitters.toNat) :
    (p.tryPoll i w).tracker.emitStopSent = p.tracker.emitStopSent := by
  unfold tryPoll
  dsimp only
  split
  · exact sent_afterFetcherPoll.trans (sent_poll_eq (p := p.requestTracker _) hpos)
  · rfl

/-- A fetch worker that does not inject does not end the injection. -/
theorem FetcherMove.sent {w : Fetcher} (h : FetcherMove p i w q)
    (hpos : 0 < p.settings.numEmitters.toNat) (hn : ∀ k, w.stage ≠ .injecting k) :
    q.tracker.emitStopSent = p.tracker.emitStopSent := by
  cases h with
  | abort | notCreated | receiveStop | lose | stalled => exact sent_endFetcher
  | create | created | acquire | receiveItem | handOver => rfl
  | idle | settle | handed => exact sent_tryPoll hpos
  | injected hst => exact absurd hst (hn _)

theorem EmitterMove.sent {w : EmitWorker} (h : EmitterMove p j w q) :
    q.tracker.emitStopSent = p.tracker.emitStopSent := by
  cases h <;> rfl

/-- A new submission, or a check that is given up in the middle of its injection, adds to the work
that is left. -/
def Loads (p : Pipeline) : Action → Prop
  | .invoke _ r => r.submits = true
  | .cancel n => ∃ i, (n, .checkInjecting i) ∈ p.calls
  | _ => False

/-- A call begins that brings no work with it. -/
theorem balance_addCall {s : CallStage} (hs : s.work p.settings.numClients.toNat = 0) :
    (p.addCall n s).balance ≤ p.balance := by
  have hassets : (p.addCall n s).assets = p.assets := rfl
  have hcalls := callTotal_addCall (p := p) (n := n) (u := s)
    (k := CallStage.work p.settings.numClients.toNat)
  have hdue : (p.addCall n s).signalsDue ≤ p.signalsDue :=
    signalsDue_le rfl id fun m v hv hi => .inr ⟨v, mem_addCall.mpr (.inl hv), hi⟩
  rw [balance_eq, balance_eq, show (p.addCall n s).settings = p.settings from rfl]
  omega

/-- A call is answered at once. -/
theorem balance_dismiss {a : Reply} (hn : ∀ s, (n, s) ∉ p.calls)
    (ha : (Event.replied n a).advances = false) : (p.reply n a).balance ≤ p.balance := by
  have hcalls : (p.reply n a).calls = p.calls :=
    List.filter_eq_self.mpr fun c hc => by
      simpa using fun he : c.1 = n => hn c.2 (he ▸ hc)
  exact balance_le_of_assets (Nat.le_of_eq (assets_aside (p := { p.release (.call n) with
    calls := p.calls.filter (·.1 ≠ n) }) ha)) hcalls rfl id

theorem Invocation.balance_le {r : Request} (h : Invocation p n r q) (hn : ∀ s, (n, s) ∉ p.calls)
    (hr : r.submits = false) (hc : p.stopsClaimed = true) : q.balance ≤ p.balance := by
  cases h with
  | start => exact balance_addCall (p := p) (n := n) (s := .starting) rfl
  | check => exact balance_addCall (p := p) (n := n) (s := .checking) rfl
  | status => exact balance_addCall (p := p) (n := n) (s := .reading) rfl
  | finishEarly | finishLate => exact balance_dismiss hn rfl
  | finishAgain => exact balance_dismiss (p := { p with shuttingDown := true }) hn rfl
  | finish _ _ hf => cases hf.symm.trans hc
  | offer | batchRefused | batchTooLarge | batchEmpty | batch => cases hr

/-- The balance does not grow but by a new submission, or by giving up a check in the middle of
its injection. Every worker has been launched, and the announcement has been made. -/
theorem Reaches.balance_le (h : p₀.Reaches p) (hb : build settings origin = .built p₀)
    (hc : p.stopsClaimed = true) (hs : p.step a = some q) (ha : ¬ p.Loads a) :
    q.balance ≤ p.balance := by
  have hx := h.sections hb
  have hp := h.handshake hb
  have hq := (h.step hs).handshake hb
  have fetcher {i : Nat} {w : Fetcher} (hw : p.fetchers[i]? = some w) (hf : FetcherMove p i w q) :
      q.balance ≤ p.balance := by
    have hn : ∀ k, w.stage ≠ .injecting k := fun k hk =>
      hp.fetcher i k (by simp [fetchStage?, hw, hk])
    exact balance_le_of_assets (hf.assets_le hw hn) hf.callsKept.calls
      hf.callsKept.settings (hf.sent (h.numEmitters_pos hb) hn).trans
  have emitter {j : Nat} {w : EmitWorker} (hw : p.emitters[j]? = some w)
      (he : EmitterMove p j w q) : q.balance ≤ p.balance := by
    exact balance_le_of_assets (he.assets_le hw) he.callsKept.calls he.callsKept.settings
      he.sent.trans
  cases step_taken hs with
  | @invoke n request hn =>
    have hsubmits : request.submits = false := by simpa [Loads] using ha
    exact Nat.le_trans ((invoke_move p n request).balance_le hn hsubmits hc) (balance_aside rfl)
  | @cancel n stage hm =>
    have hinj : stage.isInjecting = false := by
      cases stage with
      | checkInjecting i => exact absurd ⟨i, hm⟩ ha
      | offerInjecting => exact absurd hm (hp.offer _ _ _ _)
      | _ => rfl
    exact Nat.le_of_add_right_le (balance_leave (k := 0) hx.keys hm (.inl hinj) rfl
      (Nat.le_of_eq (assets_aside (p := { p.release (.call n) with
        calls := p.calls.filter (·.1 ≠ n) }) rfl)) rfl rfl)
  | close =>
    refine balance_le_of_assets ?_ (CallsKept.close p).calls (CallsKept.close p).settings ?_
    · unfold Pipeline.close
      split
      · exact Nat.le_of_eq (assets_aside rfl)
      · exact Nat.le_of_eq ((assets_aside rfl).trans assets_abortAll)
    · unfold Pipeline.close
      split <;> exact id
  | drop =>
    exact balance_le_of_assets (Nat.le_of_eq ((assets_aside rfl).trans assets_abortAll))
      (CallsKept.drop p).calls (CallsKept.drop p).settings id
  | tick => exact Nat.le_refl _
  | @call n s _ hm hs =>
    have hstarted := ((h.watched hb).claimed hc).1
    refine (stepCall?_move hs).balance_le hx hp hq (fun c hl => ?_) hstarted hm
    subst hl
    cases ((h.staffed hb).launching n c hm).1.symm.trans hstarted
  | fetcher hw hs => exact fetcher hw (stepFetcher?_move hs)
  | emitter hw hs => exact emitter hw (stepEmitter?_move hs)
  | abortFetcher hw hs => exact fetcher hw (abortFetcher?_move hs)
  | abortEmitter hw hs => exact emitter hw (abortEmitter?_move hs)
  | clientReturns hw hs => exact fetcher hw (clientReturned?_move hs)
  | processReturns hw hs => exact fetcher hw (processReturned?_move hs)
  | emitReturns hw hs => exact emitter hw (emitReturned?_move hs)

end Steps

end Pipeline

end DocumentPipeline
