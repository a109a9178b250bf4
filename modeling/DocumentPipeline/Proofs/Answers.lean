import DocumentPipeline.Proofs.Lines
import DocumentPipeline.Proofs.Submissions

/-! # What a submission is told

A submission that is told that it was admitted has put all of its items on the intake queue,
and in one go. One that is told anything else has put none of them there and never will.
-/
namespace DocumentPipeline

namespace History

/-- What the latest call under a number has put on the intake queue. -/
def admissionsOf (n : Nat) : History → List (List WorkItem)
  | [] => []
  | x :: h =>
    match x.event with
    | .invoked m _ => if m = n then [] else admissionsOf n h
    | .admitted m items => if m = n then admissionsOf n h ++ [items] else admissionsOf n h
    | _ => admissionsOf n h

/-- Whether the latest call under a number has not ended. -/
def isOpen (n : Nat) : History → Bool
  | [] => false
  | x :: h =>
    match x.event with
    | .invoked m _ => m = n || isOpen n h
    | .replied m _ | .cancelled m => m ≠ n && isOpen n h
    | _ => isOpen n h

variable {n : Nat} {x : Entry} {h : History}

theorem admissionsOf_of_ne (hx : x.event.caller? ≠ some n) :
    admissionsOf n (x :: h) = admissionsOf n h := by
  obtain ⟨time, e⟩ := x
  cases e <;> simp_all [admissionsOf]

theorem isOpen_of_ne (hx : x.event.caller? ≠ some n) : isOpen n (x :: h) = isOpen n h := by
  obtain ⟨time, e⟩ := x
  cases e <;> simp_all [isOpen]

theorem requestOf_of_ne (hx : x.event.caller? ≠ some n) :
    requestOf n (x :: h) = requestOf n h := by
  obtain ⟨time, e⟩ := x
  cases e <;> simp_all [requestOf]

/-- What must be on record when items are admitted and when a submission is answered. -/
def Told : Event → History → Prop
  | .admitted n _, past => past.isOpen n = true
  | .replied n (.offered r), past => ∃ request, past.requestOf n = some request ∧
      (r = .ok true → (past.admissionsOf n).flatten = request.items ∧
        (past.admissionsOf n).length ≤ 1) ∧
      (r ≠ .ok true → past.admissionsOf n = [])
  | _, _ => True

/-- Once its call has returned, nothing is admitted under a number until it is used again. -/
theorem Each.admissionsOf_eq {later past : History} {time : Nat} {a : Reply}
    (he : Each Told (later ++ ⟨time, .replied n a⟩ :: past))
    (hl : ∀ x ∈ later, ∀ request, x.event ≠ .invoked n request) :
    isOpen n (later ++ ⟨time, .replied n a⟩ :: past) = false ∧
      admissionsOf n (later ++ ⟨time, .replied n a⟩ :: past) = past.admissionsOf n := by
  induction later with
  | nil => simp [isOpen, admissionsOf]
  | cons y later ih =>
    obtain ⟨hopen, hsame⟩ := ih he.2 fun x hx => hl x (List.mem_cons_of_mem _ hx)
    have hy := hl y List.mem_cons_self
    have htold := he.1
    obtain ⟨time, e⟩ := y
    cases e with
    | invoked m request =>
      have hne : m ≠ n := fun h => hy request (h ▸ rfl)
      simp [isOpen, admissionsOf, hne, hopen, hsame]
    | admitted m items =>
      have hne : m ≠ n := by
        rintro rfl
        simp only [List.append_eq] at htold hopen
        simp_all [Told]
      simp [isOpen, admissionsOf, hne, hopen, hsame]
    | replied m a => simp [isOpen, admissionsOf, hopen, hsame]
    | cancelled m => simp [isOpen, admissionsOf, hopen, hsame]
    | _ => simpa [isOpen, admissionsOf, hopen] using hsame

theorem told_of_caller?_eq_none {e : Event} (h : e.caller? = none) : Told e past := by
  cases e <;> simp_all [Told]

end History

/-- The request that a submission at this stage came with. -/
@[simp] def CallStage.asks : CallStage → Option Request
  | offering item wait | offerPolling item wait | offerInjecting item wait _ =>
    some (.offer item wait)
  | batching items wait => some (.offerBatch items wait)
  | _ => none

/-- Whether a call at this stage is a submission. -/
@[simp] def CallStage.submits : CallStage → Bool
  | offering _ _ | offerPolling _ _ | offerInjecting _ _ _ | sending _ _ | batching _ _
  | pausing _ _ _ => true
  | _ => false

/-- Only submissions are told whether they were admitted. -/
theorem CallStage.told_of_records {s : CallStage} {n : Nat} {e : Event} {past : History}
    (hs : s.submits = false) (h : s.records n e) : History.Told e past := by
  cases e with
  | replied m a => cases a <;> cases s <;> simp_all [History.Told]
  | admitted m items => cases s <;> simp_all
  | _ => trivial

namespace Pipeline

/-- Every submission that has ended was told the truth, and none that is pending has put
anything on the intake queue. -/
structure Answering (p : Pipeline) : Prop where
  told : History.Each History.Told p.history
  isOpen : ∀ n s, (n, s) ∈ p.calls → p.history.isOpen n = true
  empty : ∀ n s, (n, s) ∈ p.calls → p.history.admissionsOf n = []
  asked : ∀ n s r, (n, s) ∈ p.calls → s.asks = some r → p.history.requestOf n = some r

variable {p q : Pipeline} {n : Nat} {s u : CallStage}

/-- As long as a call goes on, nothing is recorded of it, and it remembers its request. -/
theorem CallMove.goes_on (h : CallMove p n s q) (hu : (n, u) ∈ q.calls) :
    History.Adds (fun e => e.caller? ≠ some n) p.history q.history ∧
      ∀ r, u.asks = some r → s.asks = some r := by
  have polling {g : History} (hg : History.Adds (fun e => e.isPolling = true) p.history g) :
      History.Adds (fun e => e.caller? ≠ some n) p.history g :=
    hg.mono fun e he => by cases e <;> simp_all
  have hoffer {item : WorkItem} {wait : Wait} {v : Pipeline × Verdict}
      (hv : History.Adds (fun e => e.isPolling = true) p.history v.1.history)
      (hu : (n, u) ∈ (afterOfferPoll n item wait v).calls) :
      History.Adds (fun e => e.caller? ≠ some n) p.history (afterOfferPoll n item wait v).history ∧
        ∀ r, u.asks = some r → some (.offer item wait) = some r := by
    obtain ⟨q, v⟩ := v
    cases v with
    | failed e => exact absurd hu not_mem_reply
    | active r => exact ⟨polling hv, by simp [stage_of_setCall hu]⟩
    | injecting i => exact ⟨polling hv, by simp [stage_of_setCall hu]⟩
  have hcheck {v : Pipeline × Verdict}
      (hv : History.Adds (fun e => e.isPolling = true) p.history v.1.history)
      (hu : (n, u) ∈ (afterCheckPoll n v).calls) :
      History.Adds (fun e => e.caller? ≠ some n) p.history (afterCheckPoll n v).history ∧
        ∀ r, u.asks = some r → none = some r := by
    obtain ⟨q, v⟩ := v
    cases v with
    | failed e => exact absurd hu not_mem_reply
    | active r => exact absurd hu not_mem_reply
    | injecting i => exact ⟨polling hv, by simp [stage_of_setCall hu]⟩
  cases h with
  | startedBefore | opened | offerRefused | sent | unsent | batchRefused | batchAdmitted
  | batchExpired | noStops | lastStop | stalledOut | read => exact absurd hu not_mem_reply
  | launching | offerAccepted => exact ⟨.refl _, by simp [stage_of_setCall hu]⟩
  | launchFetcher | launchEmitter => exact ⟨.one (by simp), by simp [stage_of_setCall hu]⟩
  | batchPaused | firstStop | stopStalled =>
    exact ⟨.one (by simp), by simp [stage_of_setCall hu]⟩
  | nextStop =>
    exact ⟨.trans (.one (by simp)) (.one (by simp)), by simp [stage_of_setCall hu]⟩
  | offerPolled => exact hoffer (Polled.poll _ _).polling hu
  | offerInjected hi => exact hoffer (inject?_injected hi).polling hu
  | checked => exact hcheck (Polled.poll _ _).polling hu
  | checkInjected hi => exact hcheck (inject?_injected hi).polling hu

namespace Answering

/-- A submission is refused or given up: nothing was admitted on its behalf. -/
theorem refused {past : History} {r : Except PipelineError Bool} (h : Answering p) (hx : Sections p)
    (hm : (n, s) ∈ p.calls)
    (ha : History.Adds (fun e => e.caller? ≠ some n) p.history past) (hr : r ≠ .ok true) :
    History.Told (.replied n (.offered r)) past := by
  obtain ⟨request, hreq, -⟩ := hx.request n s hm
  refine ⟨request, ?_, fun he => absurd he hr, fun _ => ?_⟩
  · rw [ha.ignored fun _ _ => History.requestOf_of_ne]
    exact hreq
  · rw [ha.ignored fun _ _ => History.admissionsOf_of_ne]
    exact h.empty n s hm

/-- The items of a submission are admitted and its caller is told. -/
theorem admitted {past : History} {items : List WorkItem} {request : Request} {t t' : Nat}
    (h : Answering p) (hm : (n, s) ∈ p.calls)
    (hreq : p.history.requestOf n = some request) (hi : request.items = items)
    (ha : History.Adds (fun e => e.caller? ≠ some n) p.history past)
    (he : History.Each History.Told past) :
    History.Each History.Told
      (⟨t', .replied n (.offered (.ok true))⟩ :: ⟨t, .admitted n items⟩ :: past) := by
  have hempty : past.admissionsOf n = [] := by
    rw [ha.ignored fun _ _ => History.admissionsOf_of_ne]
    exact h.empty n s hm
  refine ⟨⟨request, ?_, fun _ => ?_, fun hr => absurd rfl hr⟩, ?_, he⟩
  · change past.requestOf n = some request
    rw [ha.ignored fun _ _ => History.requestOf_of_ne]
    exact hreq
  · simp [History.admissionsOf, hempty, hi]
  · rw [History.Told, ha.ignored fun _ _ => History.isOpen_of_ne]
    exact h.isOpen n s hm

/-- The tracking of workers is not told to submissions. -/
theorem told_of_adds {g h : History} (he : History.Each History.Told g)
    (ha : History.Adds (fun e => e.caller? = none) g h) : History.Each History.Told h :=
  ha.each (fun _ _ => History.told_of_caller?_eq_none) he

theorem told_afterOfferPoll {item : WorkItem} {wait : Wait} {v : Pipeline × Verdict}
    (h : Answering p) (hx : Sections p) (hm : (n, s) ∈ p.calls)
    (hv : History.Adds (fun e => e.isPolling = true) p.history v.1.history) :
    History.Each History.Told (afterOfferPoll n item wait v).history := by
  have hnone := hv.mono (Q := fun e => e.caller? = none) fun e he => by cases e <;> simp_all
  have htold := told_of_adds h.told hnone
  obtain ⟨q, v⟩ := v
  cases v with
  | failed e =>
    refine ⟨h.refused hx hm (hnone.mono fun e he => ?_) (by simp), htold⟩
    exact he ▸ (Option.some_ne_none n).symm
  | active r => exact htold
  | injecting i => exact htold

theorem told_call (h : Answering p) (hx : Sections p) (hm : (n, s) ∈ p.calls)
    (hc : CallMove p n s q) : History.Each History.Told q.history := by
  cases hs : s.submits with
  | false => exact hc.records.each (fun _ _ he => CallStage.told_of_records hs he) h.told
  | true =>
    have tested : History.Adds (fun e => e.caller? ≠ some n) p.history
        (p.record (.tested n p.intake.free)).history :=
      .one (by simp)
    have told_tested : History.Each History.Told (p.record (.tested n p.intake.free)).history :=
      ⟨trivial, h.told⟩
    cases hc with
    | offerRefused | unsent | batchRefused =>
      exact ⟨h.refused hx hm (.refl _) (by simp), h.told⟩
    | offerAccepted => exact h.told
    | offerPolled => exact h.told_afterOfferPoll hx hm (Polled.poll _ _).polling
    | offerInjected hi => exact h.told_afterOfferPoll hx hm (inject?_injected hi).polling
    | sent =>
      obtain ⟨request, hreq, wait, rfl⟩ := hx.request n _ hm
      exact h.admitted hm hreq rfl (.refl _) h.told
    | batchAdmitted hl =>
      obtain ⟨request, hreq, hserves⟩ := hx.request n s hm
      refine h.admitted hm hreq ?_ tested told_tested
      cases hl <;> obtain ⟨wait, rfl⟩ := hserves <;> rfl
    | batchExpired hl => exact ⟨h.refused hx hm tested (by simp), told_tested⟩
    | batchPaused => exact told_tested
    | _ => cases hs

/-- Under a number that is used for the first time, or again, nothing has been admitted. -/
theorem told_invocation {r : Request} (h : Answering p)
    (hi : Invocation (p.record (.invoked n r)) n r q) : History.Each History.Told q.history := by
  have hinvoked : History.Each History.Told (p.record (.invoked n r)).history := ⟨trivial, h.told⟩
  have hreq : (p.record (.invoked n r)).history.requestOf n = some r := by
    simp [record, History.requestOf]
  have hempty : (p.record (.invoked n r)).history.admissionsOf n = [] := by
    simp [record, History.admissionsOf]
  cases hi with
  | start | check | status | offer | batch | finish => exact hinvoked
  | finishEarly | finishLate | finishAgain => exact ⟨trivial, hinvoked⟩
  | batchRefused | batchTooLarge => exact ⟨⟨_, hreq, by simp, fun _ => hempty⟩, hinvoked⟩
  | batchEmpty =>
    refine ⟨⟨_, hreq, fun _ => ?_, fun hr => absurd rfl hr⟩, hinvoked⟩
    exact hempty ▸ ⟨rfl, Nat.zero_le _⟩

/-- Nobody speaks for the calls. -/
theorem of_kept (h : Answering p) (hk : CallsKept p q) : Answering q where
  told := told_of_adds h.told (hk.history.mono fun _ => Event.caller?_of_not_isCalling)
  isOpen m u hm := by
    have hw : Waits m p q := .of_kept hk
    rw [hw.ignored fun _ _ => History.isOpen_of_ne]
    exact h.isOpen m u ((hw.calls u).mp hm)
  empty m u hm := by
    have hw : Waits m p q := .of_kept hk
    rw [hw.ignored fun _ _ => History.admissionsOf_of_ne]
    exact h.empty m u ((hw.calls u).mp hm)
  asked m u r hm := by
    have hw : Waits m p q := .of_kept hk
    rw [hw.ignored fun _ _ => History.requestOf_of_ne]
    exact h.asked m u r ((hw.calls u).mp hm)

/-- A call goes on or ends, and all others wait. -/
theorem of_told (h : Answering p) (ht : History.Each History.Told q.history)
    (hw : ∀ m, m ≠ n → Waits m p q)
    (hn : ∀ u, (n, u) ∈ q.calls →
      q.history.isOpen n = true ∧ q.history.admissionsOf n = [] ∧
        ∀ r, u.asks = some r → q.history.requestOf n = some r) : Answering q where
  told := ht
  isOpen m u hm := by
    by_cases he : m = n
    · subst he
      exact (hn u hm).1
    · have hw := hw m he
      rw [hw.ignored fun _ _ => History.isOpen_of_ne]
      exact h.isOpen m u ((hw.calls u).mp hm)
  empty m u hm := by
    by_cases he : m = n
    · subst he
      exact (hn u hm).2.1
    · have hw := hw m he
      rw [hw.ignored fun _ _ => History.admissionsOf_of_ne]
      exact h.empty m u ((hw.calls u).mp hm)
  asked m u r hm := by
    by_cases he : m = n
    · subst he
      exact (hn u hm).2.2 r
    · have hw := hw m he
      rw [hw.ignored fun _ _ => History.requestOf_of_ne]
      exact h.asked m u r ((hw.calls u).mp hm)

theorem call (h : Answering p) (hx : Sections p) (hm : (n, s) ∈ p.calls) (hc : CallMove p n s q) :
    Answering q := by
  refine h.of_told (h.told_call hx hm hc) (fun m hne => hc.waits hne) fun u hu => ?_
  obtain ⟨ha, hasks⟩ := hc.goes_on hu
  refine ⟨?_, ?_, fun r hr => ?_⟩
  · rw [ha.ignored fun _ _ => History.isOpen_of_ne]
    exact h.isOpen n s hm
  · rw [ha.ignored fun _ _ => History.admissionsOf_of_ne]
    exact h.empty n s hm
  · rw [ha.ignored fun _ _ => History.requestOf_of_ne]
    exact h.asked n s r hm (hasks r hr)

theorem invocation {r : Request} (h : Answering p) (hn : ∀ s, (n, s) ∉ p.calls)
    (hi : Invocation (p.record (.invoked n r)) n r q) : Answering q := by
  have hw (m) (hne : m ≠ n) : Waits m p q := by
    have hinvoked : Waits m p (p.record (.invoked n r)) :=
      .record (.refl p) (by simpa using hne.symm)
    exact hinvoked.trans (hi.waits hne)
  refine h.of_told (h.told_invocation hi) hw fun u hu => ?_
  cases hi with
  | start | check | status | offer | batch | finish =>
    rcases mem_addCall.mp hu with hu | ⟨-, rfl⟩
    · exact absurd hu (hn u)
    · simp [requestTracker, requestProducer, addCall, record, History.isOpen,
        History.admissionsOf, History.requestOf]
  | batchRefused | batchTooLarge | batchEmpty | finishEarly | finishLate | finishAgain =>
    exact absurd hu not_mem_reply

theorem move (h : Answering p) (hx : Sections p) (hm : Move p q) : Answering q := by
  cases hm with
  | invoke hn hi => exact h.invocation hn hi
  | @cancel n s hm hs =>
    refine h.of_told (n := n) ⟨trivial, h.told⟩ (fun m hne => ?_) fun u hu => ?_
    · exact .leave (.refl p) hne rfl rfl (by simpa using hne.symm)
    · simp [record] at hu
  | close => exact h.of_kept (.close p)
  | drop => exact h.of_kept (.drop p)
  | tick => exact ⟨h.told, h.isOpen, h.empty, h.asked⟩
  | call hm hc => exact h.call hx hm hc
  | fetcher hw hf => exact h.of_kept hf.callsKept
  | emitter hw he => exact h.of_kept he.callsKept

end Answering

variable {settings : Settings} {origin : Instant}

theorem answering_of_build (h : build settings origin = .built p) : Answering p := by
  obtain ⟨-, -, rfl⟩ := build_eq_built h
  constructor <;> simp [History.Each]

theorem Reaches.answering (h : p.Reaches q) (hb : build settings origin = .built p) :
    Answering q :=
  h.invariant (answering_of_build hb) fun _ _ hr ih hm => ih.move (hr.sections hb) hm

/-- While an offer waits for its slot, nobody else stands in line. -/
theorem Lines.senders_eq (h : Lines p) (hx : Sections p) (hm : (n, s) ∈ p.calls)
    (hs : s.sends = true) : p.intake.senders = [.call n] := by
  have hmem : .call n ∈ p.intake.senders := (h.intake.mem_iff _).mpr ⟨s, hm, hs⟩
  have hall : ∀ t ∈ p.intake.senders, t = .call n := by
    intro t ht
    obtain ⟨m, u, rfl, hu, hus⟩ := h.exists_call ht
    have held := hx.producer n s hm (CallStage.holdsProducer_of_sends hs)
    rw [(hx.producer_unique hm hu held (CallStage.holdsProducer_of_sends hus)).1]
  obtain ⟨l, hl⟩ : ∃ l, p.intake.senders = l := ⟨_, rfl⟩
  have hnodup := h.intake.nodup
  rw [hl] at hmem hall hnodup ⊢
  match l with
  | [t] => rw [hall t (by simp)]
  | t :: u :: l =>
    have ht := hall t (by simp)
    have hu := hall u (by simp)
    simp [ht, hu] at hnodup

theorem Lines.not_mem_senders (h : Lines p) (hn : ∀ s, (n, s) ∉ p.calls) :
    .call n ∉ p.intake.senders := by
  rw [h.intake.mem_iff]
  rintro ⟨s, hs, -⟩
  exact hn s hs

end Pipeline

end DocumentPipeline
