import DocumentPipeline.Proofs.Clock
import DocumentPipeline.Proofs.Overtaking
import DocumentPipeline.Proofs.Signals

/-! # What a stall tells of the consumers

Each sender has its own ceiling, but the slots of a queue are granted in the order of its line. A
stop signal is alone in its line, so when it stalls nothing was taken off the queue while it
waited. A payload can have the payloads of all other fetch workers before it: when it stalls,
fewer messages were taken than there are fetch workers, but the emit workers may well have taken
some all the time.
-/
namespace DocumentPipeline

/-- The pool that takes what is handed over. -/
def Cargo.pool : Cargo → Role
  | fetchStop => .fetch
  | emitData | emitStop => .emit

@[simp] theorem Role.pool_cargo (role : Role) : role.cargo.pool = role := by cases role <;> rfl

/-- Whether a fetch worker waits for a slot of the outtake queue with a payload. -/
@[simp] def FetchStage.isHanding : FetchStage → Bool
  | handing _ _ _ _ => true
  | _ => false

namespace History

/-- A hand-off that ends at the given time has waited to the ceiling. Meanwhile fewer messages than
given were taken off its queue, and none at all if it is a stop signal. -/
def WaitedOut (ceiling bound : Nat) (t : Task) (cargo : Cargo) (ended : Nat) (h : History) : Prop :=
  ∃ (since past : History) (began : Nat), h = since ++ ⟨began, .handoffBegan t cargo⟩ :: past ∧
    began + ceiling ≤ ended ∧ since.departed cargo.pool < bound ∧
    (cargo ≠ .emitData → since.departed cargo.pool = 0)

/-- Every hand-off that has stalled has waited to the ceiling. -/
def StallsLate (ceiling bound : Nat) (h : History) : Prop :=
  ∀ (later past : History) ended t cargo, h = later ++ ⟨ended, .handoffStalled t cargo⟩ :: past →
    past.WaitedOut ceiling bound t cargo ended

/-- From the time that a payload begins to wait, so many messages are taken off its queue before
the ceiling has passed. -/
def Brisk (ceiling bound : Nat) (h : History) : Prop :=
  ∀ (later since past : History) x t began,
    h = later ++ x :: (since ++ ⟨began, .handoffBegan t .emitData⟩ :: past) →
    began + ceiling ≤ x.time → bound ≤ since.departed .emit

/-- When events of a kind were recorded, earliest first. -/
def moments (kind : Event → Bool) (h : History) : List Nat :=
  (h.reverse.filter fun x => kind x.event).map Entry.time

variable {ceiling bound : Nat} {past h : History}

theorem StallsLate.cons {x : Entry} (h : past.StallsLate ceiling bound)
    (hx : ∀ t cargo, x.event = .handoffStalled t cargo →
      past.WaitedOut ceiling bound t cargo x.time) :
    StallsLate ceiling bound (x :: past) := by
  intro later older ended t cargo hh
  cases later with
  | nil =>
    obtain ⟨rfl, rfl⟩ := List.cons.inj hh
    exact hx t cargo rfl
  | cons y later => exact h later older ended t cargo (List.cons.inj hh).2

theorem StallsLate.of_adds (hp : past.StallsLate ceiling bound)
    (ha : Adds (fun e => e.isStall = false) past h) : h.StallsLate ceiling bound := by
  obtain ⟨new, hn, rfl⟩ := ha
  induction new with
  | nil => exact hp
  | cons x new ih =>
    apply StallsLate.cons
    · exact ih fun y hy => hn y (List.mem_cons_of_mem _ hy)
    · intro t cargo he
      have hx := hn x List.mem_cons_self
      rw [he] at hx
      cases hx

end History

namespace Pipeline

variable {p q p₀ : Pipeline} {i j n : Nat} {t : Task} {s : CallStage} {w : Fetcher}
  {settings : Settings} {origin : Instant}

section Steps

theorem not_handing_afterFetcherPoll {u : FetchStage} {v : Pipeline × Verdict}
    (hs : v.1.fetchStage? i = some u) :
    ∃ s, (afterFetcherPoll i w v).fetchStage? i = some s ∧ s.isHanding = false := by
  obtain ⟨r, v⟩ := v
  cases v with
  | failed e => exact ⟨_, fetchStage?_endFetcher hs, rfl⟩
  | active b => exact ⟨_, fetchStage?_of_setFetcher (s := .queuing) hs rfl, rfl⟩
  | injecting k => exact ⟨_, fetchStage?_of_setFetcher (s := .injecting k) hs rfl, rfl⟩

theorem not_handing_tryPoll {u : FetchStage} (hs : p.fetchStage? i = some u) :
    ∃ s, (p.tryPoll i w).fetchStage? i = some s ∧ s.isHanding = false := by
  unfold tryPoll
  split
  · apply not_handing_afterFetcherPoll (u := u)
    exact ((Polled.poll _ _).fetchStage i).trans hs
  · exact ⟨_, fetchStage?_of_setFetcher (s := .queuing) hs rfl, rfl⟩

/-- A fetch worker that waits with a payload after its step has begun to wait with it. -/
theorem FetcherMove.begins_payload (h : FetcherMove p i w q) (hw : p.fetchers[i]? = some w) :
    (∃ s, q.fetchStage? i = some s ∧ s.isHanding = false) ∨
      ∃ item payload since past,
        q.fetchStage? i = some (.handing item payload since (q.now + q.ceiling)) ∧
        q.history = ⟨q.now, .handoffBegan (.fetcher i) .emitData⟩ :: past ∧
        q.outtake = p.outtake.join (.fetcher i) ∧ q.settings = p.settings := by
  have hs : p.fetchStage? i = some w.stage := by simp [fetchStage?, hw]
  cases h with
  | abort | notCreated | receiveStop | lose | stalled =>
    exact .inl ⟨_, fetchStage?_endFetcher hs, rfl⟩
  | create | acquire | created | receiveItem =>
    exact .inl ⟨_, fetchStage?_of_setFetcher hs rfl, rfl⟩
  | handOver => exact .inr ⟨_, _, _, _, fetchStage?_of_setFetcher hs rfl, rfl, rfl, rfl⟩
  | idle => exact .inl (not_handing_tryPoll (p := { p with intakeLock := _ }) hs)
  | settle | handed =>
    exact .inl (not_handing_tryPoll (p := { Pipeline.record _ _ with totalProcessed := _ }) hs)
  | injected _ hi =>
    apply Or.inl
    apply not_handing_afterFetcherPoll (u := w.stage)
    rcases (Idles.injected (t := .fetcher i) (inject?_injected hi)).stage i rfl with he | ⟨hn, -⟩
    · exact he.trans hs
    · rw [hs] at hn; cases hn

/-- A fetch worker stalls with its payload, or does nothing that stalls. -/
theorem FetcherMove.stalls (h : FetcherMove p i w q) (hn : ∀ k, w.stage ≠ .injecting k) :
    History.Adds (fun e => e.isStall = false) p.history q.history ∨
      ∃ item payload since d, w.stage = .handing item payload since d ∧
        p.outtake.hasSlot (.fetcher i) = false ∧ d ≤ p.now ∧
        History.Adds (fun e => e.isStall = false)
          (⟨p.now, .handoffStalled (.fetcher i) .emitData⟩ :: p.history) q.history := by
  cases h with
  | abort | notCreated => exact .inl unstalled_endFetcher
  | create | acquire => exact .inl (.refl _)
  | created => exact .inl (.one rfl)
  | @receiveStop d ms =>
    have hpast : History.Adds (fun e => e.isStall = false) p.history
        (p.record (.received i .stop)).history := .one rfl
    exact .inl (hpast.trans unstalled_endFetcher)
  | receiveItem | handOver => exact .inl (.trans (.one rfl) (.one rfl))
  | idle => exact .inl unstalled_tryPoll
  | @settle item since r outcome =>
    have hpast : History.Adds (fun e => e.isStall = false) p.history
        ((p.record (.processEnded i item r)).record
          (.reported i item outcome (p.now - since))).history :=
      .trans (.one rfl) (.one rfl)
    exact .inl (hpast.trans unstalled_tryPoll)
  | @lose item since r =>
    have hpast : History.Adds (fun e => e.isStall = false) p.history
        (p.record (.processEnded i item r)).history := .one rfl
    exact .inl (hpast.trans unstalled_endFetcher)
  | @handed item payload since =>
    have hpast : History.Adds (fun e => e.isStall = false) p.history
        ((p.record (.payloadQueued i payload)).record
          (.reported i item (.parsed payload) (p.now - since))).history :=
      .trans (.one rfl) (.one rfl)
    exact .inl (hpast.trans unstalled_tryPoll)
  | stalled hs hq hd => exact .inr ⟨_, _, _, _, hs, hq, hd, unstalled_endFetcher⟩
  | injected hs => exact absurd hs (hn _)

/-- Whether a task has no slot of the queue of a pool. -/
def LacksSlot (p : Pipeline) (t : Task) : Role → Prop
  | .fetch => p.intake.hasSlot t = false
  | .emit => p.outtake.hasSlot t = false

theorem unstalled_afterCheckPoll {v : Pipeline × Verdict}
    (hv : History.Adds (fun e => e.isStall = false) p.history v.1.history) :
    History.Adds (fun e => e.isStall = false) p.history (afterCheckPoll n v).history := by
  obtain ⟨q, v⟩ := v
  cases v with
  | failed | active => exact hv.trans (.one rfl)
  | injecting => exact hv

theorem unstalled_afterOfferPoll {item : WorkItem} {wait : Wait} {v : Pipeline × Verdict}
    (hv : History.Adds (fun e => e.isStall = false) p.history v.1.history) :
    History.Adds (fun e => e.isStall = false) p.history (afterOfferPoll n item wait v).history := by
  obtain ⟨q, v⟩ := v
  cases v with
  | failed => exact hv.trans (.one rfl)
  | active | injecting => exact hv

/-- A call stalls with a stop signal, or does nothing that stalls. -/
theorem CallMove.stalls_signal (h : CallMove p n s q)
    (ho : ∀ item wait k, s ≠ .offerInjecting item wait k) :
    History.Adds (fun e => e.isStall = false) p.history q.history ∨
      ∃ role d, s.signalDeadline? role = some d ∧ d ≤ p.now ∧ p.LacksSlot (.call n) role ∧
        History.Adds (fun e => e.isStall = false)
          (⟨p.now, .handoffStalled (.call n) role.cargo⟩ :: p.history) q.history := by
  have hpolled : History.Adds (fun e => e.isStall = false) p.history
      (p.poll (.call n)).1.history :=
    (Polled.poll _ _).history.mono fun _ => Event.not_isStall_of_isTracking
  cases h with
  | startedBefore | opened | offerRefused | unsent | batchRefused | noStops | read =>
    exact .inl (.one rfl)
  | launchFetcher | launchEmitter | batchPaused | firstStop => exact .inl (.one rfl)
  | launching | offerAccepted => exact .inl (.refl _)
  | sent | batchExpired | lastStop | nextStop | stalledOut =>
    exact .inl (.trans (.one rfl) (.one rfl))
  | batchAdmitted => exact .inl (.trans (.one rfl) (.trans (.one rfl) (.one rfl)))
  | offerPolled => exact .inl (unstalled_afterOfferPoll hpolled)
  | offerInjected => exact absurd rfl (ho _ _ _)
  | stopStalled hs hd => exact .inr ⟨.fetch, _, rfl, hd, hs, .refl _⟩
  | checked => exact .inl (unstalled_afterCheckPoll hpolled)
  | checkInjected hi =>
    cases inject?_injected hi with
    | last => exact .inl (unstalled_afterCheckPoll (.one rfl))
    | next => exact .inl (unstalled_afterCheckPoll (.trans (.one rfl) (.one rfl)))
    | stalled hs hd hq =>
      subst hq
      exact .inr ⟨.emit, _, rfl, hd, hs, .trans (.one rfl) (.one rfl)⟩

end Steps

/-- A signal that has no slot has found its queue full. -/
theorem Reaches.full_of_lacksSlot {role : Role} {d : Nat} (h : p₀.Reaches p)
    (hb : build settings origin = .built p₀) (hm : (n, s) ∈ p.calls)
    (hd : s.signalDeadline? role = some d) (hs : p.LacksSlot (.call n) role) : p.IsFull role := by
  have hl := h.lines hb
  have hx := h.sections hb
  cases role with
  | fetch =>
    have hsends : s.sends = true := by cases s <;> first | rfl | cases hd
    exact Nat.le_trans (Nat.le_of_eq hl.intake.capacity.symm)
      (full_of_no_slot (hl.senders_eq hx hm hsends) hs)
  | emit =>
    cases s with
    | checkInjecting k =>
      exact Nat.le_trans (Nat.le_of_eq hl.outtake.capacity.symm)
        (full_of_no_slot (hl.outtake_senders_eq hx (h.handshake hb) (h.tracked hb)
          (h.staffed hb) hm) hs)
    | _ => cases hd

/-- A stop signal that stalls has waited to the ceiling, and nothing was taken meanwhile. -/
theorem Reaches.signal_waitedOut {role : Role} {d : Nat} (h : p₀.Reaches p)
    (hb : build settings origin = .built p₀) (hm : (n, s) ∈ p.calls)
    (hd : s.signalDeadline? role = some d) (hnow : d ≤ p.now)
    (hs : p.LacksSlot (.call n) role) :
    p.history.WaitedOut p.ceiling p.settings.numClients.toNat (.call n) role.cargo p.now := by
  obtain ⟨began, rfl, since, past, hh, -, hdep⟩ := (h.handoffs hb).waiting role n s d hm hd
  have hnone : History.Adds (fun e => e.departures role = 0) [] since :=
    ⟨since, hdep (h.full_of_lacksSlot hb hm hd hs), (List.append_nil _).symm⟩
  have hzero : History.departed role since = 0 := History.departed_of_adds hnone
  refine ⟨since, past, began, hh, hnow, ?_, ?_⟩
  · rw [Role.pool_cargo, hzero]
    exact h.numClients_pos hb
  · intro _
    rw [Role.pool_cargo, hzero]

/-- As long as a payload waits for a slot, only payloads stand in line, one for each fetch worker at
most. -/
theorem Reaches.idxOf_lt (h : p₀.Reaches p) (hb : build settings origin = .built p₀)
    (hi : .fetcher i ∈ p.outtake.senders) :
    p.outtake.senders.idxOf (.fetcher i) < p.settings.numClients.toNat := by
  have hl := (h.lines hb).outtake
  have hk := h.handshake hb
  have hstaff := h.staffed hb
  have hsub : p.outtake.senders ⊆ p.pool .fetch := by
    intro t ht
    cases t with
    | fetcher k =>
      obtain ⟨u, hu, -⟩ := (hl.mem_iff _).mp ht
      obtain ⟨w, hw, -⟩ := Option.map_eq_some_iff.mp hu
      have hlt := Nat.lt_of_lt_of_le (List.getElem?_eq_some_iff.mp hw).1 hstaff.fetchers_le
      exact List.mem_map_of_mem (List.mem_range.mpr hlt)
    | emitter j => exact ((hl.mem_iff _).mp ht).elim
    | call n =>
      obtain ⟨s, hs, hinj⟩ := (hl.mem_iff _).mp ht
      cases s with
      | offerInjecting => exact absurd hs (hk.offer _ _ _ _)
      | checkInjecting k =>
        obtain ⟨u, hu, hover⟩ := (hl.mem_iff _).mp hi
        obtain ⟨w, hw, rfl⟩ := Option.map_eq_some_iff.mp hu
        rw [hk.fetcher_exited (h.tracked hb) hstaff hs hw] at hover
        cases hover
      | _ => cases hinj
  have hle := (List.subperm_of_subset hl.nodup hsub).length_le
  have hlt := List.idxOf_lt_length_iff.mpr hi
  simp only [pool, List.length_map, List.length_range] at hle
  exact Nat.lt_of_lt_of_le hlt hle

/-- Together with what was taken while it waits, less comes before a payload that has no slot than
fills the queue and the line of all fetch workers. -/
structure Delays (p : Pipeline) : Prop where
  waiting : ∀ i item payload since d,
    p.fetchStage? i = some (.handing item payload since d) →
      ∃ (new past : History) (began : Nat), d = began + p.ceiling ∧
        p.history = new ++ ⟨began, .handoffBegan (.fetcher i) .emitData⟩ :: past ∧
        (emitQueueSize ≤ p.outtake.depth (.fetcher i) →
          new.departed .emit + p.outtake.depth (.fetcher i) <
            emitQueueSize + p.settings.numClients.toNat)
  late : p.history.StallsLate p.ceiling p.settings.numClients.toNat

namespace Delays

/-- A payload that stalls has waited to the ceiling. -/
theorem payload_waitedOut {item : WorkItem} {payload : Payload} {since d : Nat} (h : Delays p)
    (hl : Lines p) (hs : p.fetchStage? i = some (.handing item payload since d))
    (hd : d ≤ p.now) (hslot : p.outtake.hasSlot (.fetcher i) = false) :
    p.history.WaitedOut p.ceiling p.settings.numClients.toNat (.fetcher i) .emitData p.now := by
  obtain ⟨new, past, began, rfl, hh, hbound⟩ := h.waiting i item payload since d hs
  have hmem : .fetcher i ∈ p.outtake.senders := (hl.outtake.mem_iff _).mpr ⟨_, hs, rfl⟩
  have hfull := Queue.le_depth_of_no_slot hmem hslot
  rw [hl.outtake.capacity] at hfull
  have hlt := hbound hfull
  exact ⟨new, past, began, hh, hd, show History.departed .emit new < _ by omega,
    fun hne => absurd rfl hne⟩

theorem late_move (h : Delays p) (hr : p₀.Reaches p) (hb : build settings origin = .built p₀)
    (hm : Move p q) : q.history.StallsLate p.ceiling p.settings.numClients.toNat := by
  have hk := hr.handshake hb
  -- a stalled hand-off is recorded on top of what it has waited for
  have stalled {t : Task} {cargo : Cargo}
      (hw : p.history.WaitedOut p.ceiling p.settings.numClients.toNat t cargo p.now)
      (ha : History.Adds (fun e => e.isStall = false)
        (⟨p.now, .handoffStalled t cargo⟩ :: p.history) q.history) :
      q.history.StallsLate p.ceiling p.settings.numClients.toNat := by
    refine (h.late.cons ?_).of_adds ha
    intro u c he
    cases he
    exact hw
  cases hm with
  | @invoke n r q hn hi =>
    exact h.late.of_adds (hi.adds rfl fun _ => rfl)
  | cancel | drop => exact h.late.of_adds (.one rfl)
  | close =>
    apply h.late.of_adds
    unfold Pipeline.close
    split <;> exact .one rfl
  | tick => exact h.late
  | @call n s q hn hc =>
    rcases hc.stalls_signal fun item wait k hs => hk.offer n item wait k (hs ▸ hn) with
      ha | ⟨role, d, hd, hnow, hslot, ha⟩
    · exact h.late.of_adds ha
    · exact stalled (hr.signal_waitedOut hb hn hd hnow hslot) ha
  | @fetcher i w q hw hf =>
    have hs : p.fetchStage? i = some w.stage := by simp [fetchStage?, hw]
    rcases hf.stalls fun k hst => hk.fetcher i k (hst ▸ hs) with
      ha | ⟨item, payload, since, d, hst, hslot, hd, ha⟩
    · exact h.late.of_adds ha
    · exact stalled (h.payload_waitedOut (hr.lines hb) (hst ▸ hs) hd hslot) ha
  | emitter hw he =>
    exact h.late.of_adds (he.records.mono fun e hw => by cases e <;> simp_all)

theorem move (h : Delays p) (hr : p₀.Reaches p) (hq : p₀.Reaches q)
    (hb : build settings origin = .built p₀) (hm : Move p q) : Delays q where
  waiting i item payload since d hs := by
    have hl := (hr.lines hb).outtake
    have hl' := (hq.lines hb).outtake
    have hmem : .fetcher i ∈ q.outtake.senders := (hl'.mem_iff _).mpr ⟨_, hs, rfl⟩
    rcases hm.forward i with ⟨w, hw, hf⟩ | ⟨hidle, hforward⟩
    · rcases hf.begins_payload hw with ⟨u, hu, hn⟩ | ⟨item', payload', since', past, hu, hh, -⟩
      · cases Option.some.inj (hu.symm.trans hs)
        cases hn
      · cases Option.some.inj (hu.symm.trans hs)
        refine ⟨[], past, q.now, rfl, hh, fun _ => ?_⟩
        -- the queue holds no more messages than it has slots
        have hfits := hl'.fits
        have hidx := hq.idxOf_lt hb hmem
        simp only [History.departed, List.map_nil, List.sum_nil, Queue.depth]
        omega
    · have hp : p.fetchStage? i = some (.handing item payload since d) := by
        rcases hidle.stage i rfl with he | ⟨-, hlaunched⟩
        · exact he.symm.trans hs
        · cases hlaunched.symm.trans hs
      obtain ⟨new, past, began, hd, hh, hbound⟩ := h.waiting i item payload since d hp
      obtain ⟨later, -, hlater⟩ := hidle.history
      have hceiling : q.ceiling = p.ceiling := by rw [ceiling, hm.settings, ceiling]
      refine ⟨later ++ new, past, began, hceiling ▸ hd, by rw [hlater, hh, List.append_assoc], ?_⟩
      intro hfull
      have hstep := hforward ((hl.mem_iff _).mpr ⟨_, hp, rfl⟩) (hl.capacity ▸ hfull)
      rw [hlater, History.departed_append] at hstep
      rw [History.departed_append, hm.settings]
      have := hbound (by omega)
      omega
  late := by
    rw [ceiling, hm.settings, ← ceiling]
    exact h.late_move hr hb hm

end Delays

theorem Reaches.delays (h : p₀.Reaches p) (hb : build settings origin = .built p₀) : Delays p := by
  obtain ⟨as, has⟩ := h
  refine run_induction (I := fun _ => Delays) has ?_ fun as a r s hr ih hs =>
    ih.move ⟨as, hr⟩ (Reaches.step ⟨as, hr⟩ hs) hb (step_move hs)
  obtain ⟨-, -, rfl⟩ := build_eq_built hb
  constructor
  · simp [fetchStage?]
  · intro later past ended t cargo hh
    cases later <;> cases hh

/-- In every run, a hand-off that stalls has waited to the ceiling. If it is a stop signal, nothing
was taken off its queue meanwhile; if it is a payload, fewer messages were taken than there are
fetch workers. So no payload stalls if the emit workers take as many messages as there are fetch
workers before one of these has waited to the ceiling. -/
theorem Reaches.stalls_late (h : p₀.Reaches p) (hb : build settings origin = .built p₀) :
    p.history.StallsLate p.ceiling p.settings.numClients.toNat ∧
      (p.history.Brisk p.ceiling p.settings.numClients.toNat →
        ∀ x ∈ p.history, ∀ t, x.event ≠ .handoffStalled t .emitData) := by
  have hlate := (h.delays hb).late
  refine ⟨hlate, fun hbrisk x hx t he => ?_⟩
  obtain ⟨later, before, hh⟩ := List.append_of_mem hx
  obtain ⟨ended, e⟩ := x
  obtain rfl : e = .handoffStalled t .emitData := he
  obtain ⟨since, past, began, rfl, hceiling, hlt, -⟩ := hlate later before ended t .emitData hh
  exact Nat.not_le_of_lt hlt (hbrisk later since past _ t began hh hceiling)

/-- When the signal of the announcement stalls, nothing was taken off the intake queue. -/
theorem overtakenFailure_stallsLate :
    ∃ p q, build tight default = .built p ∧ p.run overtakenFailure = some q ∧
      (∃ x ∈ q.history, x.event.isStall = true) ∧
      q.history.StallsLate q.ceiling q.settings.numClients.toNat ∧
      (q.history.Brisk q.ceiling q.settings.numClients.toNat →
        ∀ x ∈ q.history, ∀ t, x.event ≠ .handoffStalled t .emitData) := by
  refine ⟨_, _, rfl, rfl, by decide, ?_⟩
  exact Reaches.stalls_late ⟨overtakenFailure, rfl⟩ (show build tight default = _ from rfl)

/-- Two fetch workers, and hand-offs that wait for a second. -/
def hasty : Settings :=
  { queueSize := 103, numClients := 2, numEmitters := 1, maxOfferWaitMs := 1000 }

/-- A fetch worker takes an item and has it parsed. -/
def parsing (i : Nat) : List Action :=
  [.proceed (.fetcher i), .proceed (.fetcher i), .processReturns i (.value (.parsed default))]

/-- The emit worker is busy and the outtake queue is full, and both fetch workers begin to wait with
a payload. The emit worker takes its next payload after 600 ms, which gives a slot to one of them.
The other one comes to its ceiling 400 ms later, and a check is told. -/
def slowEmitter : List Action :=
  .invoke 0 .start :: List.replicate 5 (.proceed (.call 0)) ++
    [.proceed (.fetcher 0), .clientReturns 0 (.value ()), .proceed (.emitter 0),
      .proceed (.emitter 0), .invoke 1 (.offerBatch (List.replicate 103 default) .endless),
      .proceed (.call 1)] ++
    parsing 0 ++ [.proceed (.fetcher 0), .proceed (.emitter 0)] ++
    (List.replicate 100 (parsing 0 ++ [.proceed (.fetcher 0)])).flatten ++ parsing 0 ++
    [.proceed (.fetcher 1), .clientReturns 1 (.value ())] ++ parsing 1 ++
    [.tick 600, .emitReturns 0 (.value ()), .proceed (.emitter 0), .proceed (.emitter 0),
      .proceed (.fetcher 0), .proceed (.fetcher 0), .tick 400, .proceed (.fetcher 1),
      .invoke 2 .checkActive, .proceed (.call 2)]

set_option maxRecDepth 20000 in
/-- On the simulated clock, a payload stalls and the pipeline is torn down, although a message was
taken while it waited and the emit worker never let the ceiling pass between two messages. -/
theorem slowEmitter_stalled :
    ∃ p q, build hasty default = .built p ∧ p.runPunctually slowEmitter = some q ∧
      q.ceiling = 1000 ∧
      q.history.moments (· matches .handoffBegan (.fetcher 1) .emitData) = [0] ∧
      q.history.moments (· matches .handoffStalled (.fetcher 1) .emitData) = [1000] ∧
      q.history.moments (· matches .taken _ _) = [0, 600] ∧ q.closed = true := by
  obtain ⟨p, hp⟩ : ∃ p, build hasty default = .built p := ⟨_, rfl⟩
  have hrun : ((p.runPunctually slowEmitter).any fun q => q.ceiling == 1000 &&
      q.history.moments (· matches .handoffBegan (.fetcher 1) .emitData) == [0] &&
      q.history.moments (· matches .handoffStalled (.fetcher 1) .emitData) == [1000] &&
      q.history.moments (· matches .taken _ _) == [0, 600] && q.closed) = true := by
    obtain rfl := Construction.built.inj (hp.symm.trans (show build hasty default = _ from rfl))
    decide +kernel
  obtain ⟨q, hq, hstall⟩ := (Option.any_eq_true _ _).mp hrun
  simp only [Bool.and_eq_true, beq_iff_eq] at hstall
  exact ⟨p, q, hp, hq, hstall.1.1.1.1, hstall.1.1.1.2, hstall.1.1.2, hstall.1.2, hstall.2⟩

end Pipeline

end DocumentPipeline
