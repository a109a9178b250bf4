import DocumentPipeline.Proofs.Clock
import DocumentPipeline.Proofs.Progress

/-! # When a batch looks for room

A batch that has been let in looks for room at once, after every interval, and for the last time
at its deadline. While it does, nobody else fills the intake queue. So on the simulated clock it is
admitted at the first of these looks that finds room for all of it, and it does not give up before
the look at its deadline.
-/
namespace DocumentPipeline

/-- The deadline of a wait that starts at a time. One that cannot be added to the clock has none. -/
inductive Wait.Expires (start : Nat) : Wait → Option Nat → Prop
  | millis (n : Nat) : Expires start (.millis n) (some (start + n))
  | endless : Expires start .endless none

/-- When a batch looks for room that looks first at `start`: every 100 milliseconds, but not beyond
its deadline. -/
def lookTime (start : Nat) (deadline : Option Nat) (k : Nat) : Nat :=
  match deadline with
  | none => start + k * 100
  | some d => min (start + k * 100) d

section LookTime

variable {start d k : Nat} {wait : Wait} {deadline : Option Nat}

theorem Wait.Expires.deadline?_eq (h : wait.Expires start deadline) :
    wait.deadline? start = deadline := by
  cases h <;> rfl

theorem lookTime_zero (h : wait.Expires start deadline) : lookTime start deadline 0 = start := by
  cases h <;> simp [lookTime]

theorem lookTime_le : lookTime start (some d) k ≤ d := Nat.min_le_right _ _

theorem lookTime_succ_none :
    lookTime start none (k + 1) = lookTime start none k + offerPollInterval := by
  simp only [lookTime, offerPollInterval, Nat.succ_mul]
  omega

/-- The pause before the last look is shortened. -/
theorem lookTime_succ_some (h : lookTime start (some d) k < d) :
    lookTime start (some d) (k + 1) =
      lookTime start (some d) k + min offerPollInterval (d - lookTime start (some d) k) := by
  simp only [lookTime, offerPollInterval] at h ⊢
  rw [Nat.succ_mul]
  omega

end LookTime

/-- The free slots that a batch finds when it looks for room. -/
def Event.sight? (n : Nat) : Event → Option Nat
  | tested m free => if m = n then some free else none
  | _ => none

namespace History

/-- The looks of a batch: when, and how many slots were free. Oldest first. -/
def looks (n : Nat) (h : History) : List (Nat × Nat) :=
  h.reverse.filterMap fun x => (x.event.sight? n).map (x.time, ·)

variable {n : Nat} {x : Entry} {new h : History}

@[simp] theorem looks_nil : looks n [] = [] := rfl

@[simp] theorem looks_cons :
    looks n (x :: h) = looks n h ++ ((x.event.sight? n).map (x.time, ·)).toList := by
  cases hx : x.event.sight? n <;> simp [looks, hx]

theorem looks_append : looks n (new ++ h) = looks n h ++ looks n new := by
  simp [looks]

theorem looks_eq_nil (hn : ∀ x ∈ new, x.event.sight? n = none) : looks n new = [] := by
  simpa [looks] using hn

end History

/-- So many looks of a batch have found less room than it needs, each at its time and before the
deadline. -/
structure InVain (size start : Nat) (deadline : Option Nat) (count : Nat)
    (looks : List (Nat × Nat)) : Prop where
  times : looks.map Prod.fst = (List.range count).map (lookTime start deadline)
  short : ∀ x ∈ looks, x.2 < size
  early : ∀ x ∈ looks, ∀ d, deadline = some d → x.1 < d

namespace InVain

variable {size start count free : Nat} {deadline : Option Nat} {looks : List (Nat × Nat)}

theorem nil : InVain size start deadline 0 [] := ⟨rfl, by simp, by simp⟩

/-- One more look is in vain. -/
theorem snoc (h : InVain size start deadline count looks) (hf : free < size)
    (hd : ∀ d, deadline = some d → lookTime start deadline count < d) :
    InVain size start deadline (count + 1) (looks ++ [(lookTime start deadline count, free)]) where
  times := by simp [List.range_succ, h.times]
  short := by
    intro x hx
    rcases List.mem_append.mp hx with hx | hx
    · exact h.short x hx
    · obtain rfl := List.mem_singleton.mp hx
      exact hf
  early := by
    intro x hx
    rcases List.mem_append.mp hx with hx | hx
    · exact h.early x hx
    · obtain rfl := List.mem_singleton.mp hx
      exact hd

end InVain

namespace Pipeline

/-- How a batch ends that looked for room first at `start`, on top of the past in which it was let
in: it is answered after its last look, or its caller gives it up. All looks before have found too
little room, and the last one as much as given or more. -/
inductive BatchEnd (past : History) (n : Nat) (items : List WorkItem) (start : Nat)
    (deadline : Option Nat) (room : Nat) : History → Prop
  | answered {count before earlier free success}
      (unended : ∀ x ∈ before, ¬ x.event.ends n)
      (vain : InVain items.length start deadline count earlier)
      (looks : History.looks n before = earlier ++ [(lookTime start deadline count, free)])
      (spare : room ≤ free)
      (admitted : success = true ↔ items.length ≤ free)
      (last : success = false → deadline = some (lookTime start deadline count)) :
      BatchEnd past n items start deadline room
        (⟨lookTime start deadline count, .replied n (.offered (.ok success))⟩ :: (before ++ past))
  | givenUp {count before time}
      (unended : ∀ x ∈ before, ¬ x.event.ends n)
      (vain : InVain items.length start deadline count (History.looks n before)) :
      BatchEnd past n items start deadline room (⟨time, .cancelled n⟩ :: (before ++ past))

/-- How a batch fares: it pauses until its next look, which it can take as soon as its time has
come, with as much room as given or more; or it has ended. -/
inductive Course (past : History) (n : Nat) (items : List WorkItem) (start : Nat)
    (deadline : Option Nat) (room : Nat) (q : Pipeline) : Prop
  | pausing {count new} (history : q.history = new ++ past)
      (unended : ∀ x ∈ new, ¬ x.event.ends n)
      (vain : InVain items.length start deadline count (new.looks n))
      (pending : (n, .pausing items (lookTime start deadline count) deadline) ∈ q.calls)
      (due : q.now ≤ lookTime start deadline count)
      (ready : lookTime start deadline count ≤ q.now → (q.step (.proceed (.call n))).isSome = true)
      (spare : room ≤ q.intake.free)
  | ended {h} (result : BatchEnd past n items start deadline room h) (history : h <:+ q.history)

variable {p q r p₀ : Pipeline} {n : Nat} {s : CallStage} {a : Action} {past new : History}
  {items : List WorkItem} {start count room : Nat} {deadline : Option Nat} {settings : Settings}
  {origin : Instant}

/-- Nobody stands in line at the intake queue while a call holds the producer lock for something
else. -/
theorem Lines.senders_eq_nil (h : Lines p) (hx : Sections p) (hm : (n, s) ∈ p.calls)
    (held : p.producerLock.heldBy (.call n) = true) (hs : s.sends = false) :
    p.intake.senders = [] := by
  refine List.eq_nil_iff_forall_not_mem.mpr fun t ht => ?_
  obtain ⟨m, u, rfl, hu, hus⟩ := h.exists_call ht
  obtain ⟨-, rfl⟩ := hx.producer_unique hm hu held (CallStage.holdsProducer_of_sends hus)
  cases hs.symm.trans hus

/-- Only a call itself looks for room. -/
theorem unseen_of_step (hs : p.step a = some q) (ha : a ≠ .proceed (.call n)) :
    History.Adds (fun e => e.sight? n = none) p.history q.history := by
  have unseen {r : Pipeline} (hk : CallsKept p r) :
      History.Adds (fun e => e.sight? n = none) p.history r.history :=
    hk.history.mono fun e he => by cases e <;> simp_all [Event.sight?]
  cases step_taken hs with
  | @invoke m request =>
    exact (invoke_move p m request).adds rfl fun _ => rfl
  | cancel | drop => exact .one rfl
  | close => exact unseen (.close p)
  | tick => exact .refl _
  | @call m s _ hm hs =>
    have hne : m ≠ n := fun he => ha (he ▸ rfl)
    refine (stepCall?_move hs).records.mono fun e he => ?_
    cases e with
    | tested k free => cases s <;> simp_all [Event.sight?]
    | _ => rfl
  | fetcher _ hs => exact unseen (stepFetcher?_move hs).callsKept
  | emitter _ hs => exact unseen (stepEmitter?_move hs).callsKept
  | abortFetcher _ hs => exact unseen (abortFetcher?_move hs).callsKept
  | abortEmitter _ hs => exact unseen (abortEmitter?_move hs).callsKept
  | clientReturns _ hs => exact unseen (clientReturned?_move hs).callsKept
  | processReturns _ hs => exact unseen (processReturned?_move hs).callsKept
  | emitReturns _ hs => exact unseen (emitReturned?_move hs).callsKept

/-- A batch that does not find enough room pauses or gives up. -/
theorem testBatch_of_short (hs : p.intake.free < items.length) :
    p.testBatch n items deadline =
      (p.record (.tested n p.intake.free)).pauseBatch n items deadline :=
  if_neg (Nat.not_le_of_lt hs)

/-- A batch whose deadline has not come pauses until its next look. -/
theorem pauseBatch_eq (hnow : p.now = lookTime start deadline count)
    (hearly : ∀ d, deadline = some d → p.now < d) :
    p.pauseBatch n items deadline =
        p.setCall n (.pausing items (lookTime start deadline (count + 1)) deadline) ∧
      p.now ≤ lookTime start deadline (count + 1) := by
  cases deadline with
  | none =>
    rw [lookTime_succ_none, ← hnow]
    exact ⟨rfl, Nat.le_add_right _ _⟩
  | some d =>
    have hlt := hearly d rfl
    rw [lookTime_succ_some (hnow ▸ hlt), ← hnow]
    exact ⟨if_neg (Nat.not_le_of_lt hlt), Nat.le_add_right _ _⟩

/-- The end is the latest that is on record then. -/
theorem BatchEnd.ends {h : History} (he : BatchEnd past n items start deadline room h) :
    ∃ x before, h = x :: (before ++ past) ∧ x.event.ends n := by
  cases he <;> exact ⟨_, _, rfl, rfl⟩

namespace Course

/-- A look at its time is the last one, or the batch pauses until the next. -/
theorem testBatch (hh : p.history = new ++ past) (hn : ∀ x ∈ new, ¬ x.event.ends n)
    (hv : InVain items.length start deadline count (new.looks n)) (hm : (n, s) ∈ p.calls)
    (hnow : p.now = lookTime start deadline count) (hroom : room ≤ p.intake.free)
    (hx : Sections (p.testBatch n items deadline)) :
    Course past n items start deadline room (p.testBatch n items deadline) := by
  by_cases hfits : items.length ≤ p.intake.free
  · have hended : BatchEnd past n items start deadline room
        (p.testBatch n items deadline).history := by
      rw [history_testBatch hfits, hh, hnow, ← List.cons_append, ← List.cons_append]
      refine .answered ?_ hv ?_ hroom ?_ ?_
      · simpa using hn
      · simp [Event.sight?]
      · simpa using hfits
      · simp
    exact .ended hended List.suffix_rfl
  have hshort := Nat.lt_of_not_le hfits
  rw [testBatch_of_short hshort] at hx ⊢
  by_cases hlate : ∃ d, deadline = some d ∧ d ≤ p.now
  · obtain ⟨d, rfl, hd⟩ := hlate
    have hlast : (p.record (.tested n p.intake.free)).pauseBatch n items (some d) =
        (p.record (.tested n p.intake.free)).reply n (.offered (.ok false)) := if_pos hd
    have hended : BatchEnd past n items start (some d) room
        ((p.record (.tested n p.intake.free)).reply n (.offered (.ok false))).history := by
      simp only [reply, record, release, hh, hnow]
      rw [← List.cons_append]
      refine .answered ?_ hv ?_ hroom ?_ ?_
      · simpa using hn
      · simp [Event.sight?]
      · simpa using hshort
      · intro
        rw [← hnow, Nat.le_antisymm (hnow ▸ lookTime_le) hd]
    exact hlast ▸ .ended hended List.suffix_rfl
  · have hearly : ∀ d, deadline = some d → p.now < d := by
      intro d hd
      exact Nat.lt_of_not_le fun hle => hlate ⟨d, hd, hle⟩
    obtain ⟨hpause, hdue⟩ := @pauseBatch_eq (p.record (.tested n p.intake.free)) n items start
      count deadline hnow hearly
    have hhistory : (p.record (.tested n p.intake.free)).history =
        (⟨p.now, .tested n p.intake.free⟩ :: new) ++ past := by
      rw [record, hh, List.cons_append]
    have hlooks : History.looks n (⟨p.now, .tested n p.intake.free⟩ :: new) =
        new.looks n ++ [(lookTime start deadline count, p.intake.free)] := by
      simp [Event.sight?, hnow]
    rw [hpause] at hx ⊢
    have hpending : (n, .pausing items (lookTime start deadline (count + 1)) deadline) ∈
        ((p.record (.tested n p.intake.free)).setCall n
          (.pausing items (lookTime start deadline (count + 1)) deadline)).calls :=
      mem_setCall.mpr (.inl ⟨rfl, rfl, s, hm⟩)
    refine .pausing hhistory ?_ (hlooks ▸ hv.snoc hshort (hnow ▸ hearly)) hpending hdue ?_ hroom
    · simpa using hn
    · intro hwake
      rw [hx.step_pausing hpending hwake]
      rfl

end Course

/-- A batch that pauses looks for room with its own steps only. -/
theorem CallMove.looks {wake : Nat} (h : CallMove p n (.pausing items wake deadline) q) :
    (q.history.looks n).length = (p.history.looks n).length + 1 := by
  cases h with
  | batchAdmitted | batchExpired | batchPaused =>
    simp [reply, record, release, setCall, Event.sight?]

/-- Nobody fills the intake queue while a batch pauses. -/
theorem Reaches.free_le {wake : Nat} (hp : p₀.Reaches p) (hq : p₀.Reaches q)
    (hb : build settings origin = .built p₀) (hset : q.settings = p.settings)
    (hm : (n, .pausing items wake deadline) ∈ p.calls)
    (hm' : (n, .pausing items wake deadline) ∈ q.calls)
    (hs : q.intake.messages <:+ p.intake.messages) : p.intake.free ≤ q.intake.free := by
  have hlines := hp.lines hb
  have hlines' := hq.lines hb
  have hx := hp.sections hb
  have hx' := hq.sections hb
  have hline := hlines.senders_eq_nil hx hm (hx.producer n _ hm rfl) rfl
  have hline' := hlines'.senders_eq_nil hx' hm' (hx'.producer n _ hm' rfl) rfl
  have hlength := hs.length_le
  simp only [Queue.free, hline, hline', hlines.intake.capacity, hlines'.intake.capacity, hset]
  omega

namespace Course

/-- Another step leaves a pausing batch as it is, except that there may be more room, or its caller
gives it up. -/
theorem wait (hr : p₀.Reaches p) (hb : build settings origin = .built p₀)
    (hh : p.history = new ++ past) (hn : ∀ x ∈ new, ¬ x.event.ends n)
    (hv : InVain items.length start deadline count (new.looks n))
    (hm : (n, .pausing items (lookTime start deadline count) deadline) ∈ p.calls)
    (hdue : p.now ≤ lookTime start deadline count) (hroom : room ≤ p.intake.free)
    (hp : p.isPunctual a = true) (hs : p.step a = some q) (ha : a ≠ .proceed (.call n)) :
    Course past n items start deadline room q := by
  have hx := hr.sections hb
  have hunseen := unseen_of_step hs ha
  have hnow : q.now ≤ lookTime start deadline count := by
    cases a with
    | tick ms =>
      cases step_taken hs
      exact le_wake_of_tick hx hm hp
    | _ => exact now_of_step hs (by simp) ▸ hdue
  rcases (step_move hs).pending hx hm with hc | rfl | ⟨hw, hsuffix⟩
  · -- its own move would have put a look on record
    have hlength := hunseen.ignored (F := fun h => (h.looks n).length) fun x h hx => by simp [hx]
    have := hc.looks
    omega
  · have hended : BatchEnd past n items start deadline room
        (⟨p.now, .cancelled n⟩ :: p.history) := hh ▸ .givenUp hn hv
    exact .ended hended List.suffix_rfl
  · have hpending := (hw.calls _).mpr hm
    have hfree := hr.free_le (hr.step hs) hb (step_move hs).settings hm hpending (hsuffix rfl)
    obtain ⟨added, hadded, hq⟩ := hunseen.and hw.history
    have hlooks : History.looks n (added ++ new) = new.looks n := by
      rw [History.looks_append, History.looks_eq_nil fun x hx => (hadded x hx).1, List.append_nil]
    have hhistory : q.history = (added ++ new) ++ past := by rw [hq, hh, List.append_assoc]
    have hx' := (hr.step hs).sections hb
    refine .pausing hhistory ?_ (hlooks ▸ hv) hpending hnow ?_ (Nat.le_trans hroom hfree)
    · intro x hx
      rcases List.mem_append.mp hx with hx | hx
      · have := (hadded x hx).2
        revert this
        cases x.event <;> simp
      · exact hn x hx
    · intro hwake
      rw [hx'.step_pausing hpending hwake]
      rfl

theorem step (h : Course past n items start deadline room p) (hr : p₀.Reaches p)
    (hb : build settings origin = .built p₀) (hp : p.isPunctual a = true)
    (hs : p.step a = some q) : Course past n items start deadline room q := by
  cases h with
  | ended result history => exact .ended result (history.trans (step_move hs).suffix)
  | pausing history unended vain pending due ready spare =>
    by_cases ha : a = .proceed (.call n)
    · subst ha
      have hx := hr.sections hb
      have hx' := (hr.step hs).sections hb
      rw [hx.step_call pending, stepCall?, Option.ite_none_right_eq_some] at hs
      obtain ⟨hwake, hq⟩ := hs
      obtain rfl := Option.some.inj hq
      exact testBatch history unended vain pending (Nat.le_antisymm due hwake) spare hx'
    · exact wait hr hb history unended vain pending due spare hp hs ha

theorem runPunctually {as : List Action} (h : Course past n items start deadline room p)
    (hr : p₀.Reaches p) (hb : build settings origin = .built p₀)
    (hs : p.runPunctually as = some q) : Course past n items start deadline room q := by
  induction as generalizing p with
  | nil =>
    obtain rfl := Option.some.inj hs
    exact h
  | cons a as ih =>
    obtain ⟨hp, r, hstep, hrun⟩ := runPunctually_cons.mp hs
    exact ih (h.step hr hb hp hstep) (hr.step hstep) hrun

/-- A batch that has not ended has all the room there is. -/
theorem of_unended (h : Course past n items start deadline room p)
    (hn : History.Adds (fun e => ¬ e.ends n) past p.history) :
    Course past n items start deadline p.intake.free p := by
  cases h with
  | pausing history unended vain pending due ready spare =>
    exact .pausing history unended vain pending due ready (Nat.le_refl _)
  | ended result history =>
    obtain ⟨new, hnew, hh⟩ := hn
    obtain ⟨x, before, rfl, hx⟩ := result.ends
    obtain ⟨later, hlater⟩ := history
    have hsplit : (later ++ x :: before) ++ past = new ++ past := by
      rw [← hh, ← hlater, List.append_assoc, List.cons_append]
    have hmem : x ∈ new := List.append_cancel_right hsplit ▸ by simp
    exact absurd hx (hnew x hmem)

end Course

/-- On the simulated clock, a batch that is let in looks for room at once, after every interval, and
for the last time at its deadline. It is admitted at the first look that finds room for all of it,
and it gives up only at its deadline. From every moment of its wait on, there is as much room as
then or more, so there never was enough room for a batch that gives up. -/
theorem Reaches.batch_course {q₀ : Pipeline} {wait : Wait} {as : List Action} (h : p₀.Reaches p)
    (hb : build settings origin = .built p₀) (hm : (n, .batching items wait) ∈ p.calls)
    (held : p.producerLock.heldBy (.call n) = true) (haccepted : p.refusal? = none)
    (hd : wait.Expires p.now deadline) (hs : p.step (.proceed (.call n)) = some q₀)
    (hq : q₀.runPunctually as = some q) :
    Course p.history n items p.now deadline p.intake.free q ∧
      (History.Adds (fun e => ¬ e.ends n) p.history q.history →
        ∀ bs r, q.runPunctually bs = some r →
          Course p.history n items p.now deadline q.intake.free r) := by
  have hfirst : Course p.history n items p.now deadline p.intake.free q₀ := by
    have hx := (h.step hs).sections hb
    simp only [(h.sections hb).step_call hm, stepCall?, held, haccepted, hd.deadline?_eq, if_true,
      Option.some.injEq] at hs
    subst hs
    have hpast : p.history = ([] : History) ++ p.history := rfl
    exact .testBatch hpast (by simp) .nil hm (lookTime_zero hd).symm (Nat.le_refl _) hx
  have hcourse := hfirst.runPunctually (h.step hs) hb hq
  refine ⟨hcourse, fun hn bs r hr => ?_⟩
  exact (hcourse.of_unended hn).runPunctually ((h.step hs).trans (.of_runPunctually hq)) hb hr

/-- A batch of two is let in while one slot is free: the fetch worker processes an item, and another
one is on the queue. -/
def batchLetIn : List Action :=
  .invoke 0 .start :: List.replicate 4 (.proceed (.call 0)) ++
    [.proceed (.emitter 0), .proceed (.emitter 0), .proceed (.fetcher 0),
      .clientReturns 0 (.value ()), .proceed (.fetcher 0), .invoke 1 (.offer default .endless),
      .proceed (.call 1), .proceed (.call 1), .proceed (.call 1), .proceed (.fetcher 0),
      .invoke 2 (.offer default .endless), .proceed (.call 2), .proceed (.call 2),
      .proceed (.call 2), .invoke 3 (.offerBatch [default, default] (.millis 250))]

/-- The batch looks for room a second time. -/
def secondLook : List Action := [.tick 100, .proceed (.call 3)]

/-- The first item crashes, the fetch worker takes the other one, and the batch looks again. -/
def thirdLook : List Action :=
  [.processReturns 0 (.value .crashed), .proceed (.fetcher 0), .proceed (.fetcher 0), .tick 100,
    .proceed (.call 3)]

/-- The fetch worker goes on with the first item, and the batch looks until its deadline. -/
def lastLook : List Action :=
  [.tick 100, .proceed (.call 3), .tick 100, .proceed (.call 3), .tick 50, .proceed (.call 3)]

/-- The answer of a submission if it is the latest on record: when it came, and what it was. -/
def latestAnswer? (n : Nat) : History → Option (Nat × Bool)
  | ⟨time, .replied m (.offered (.ok b))⟩ :: _ => if m = n then some (time, b) else none
  | _ => none

theorem lastLook_course :
    ∃ p₀ p q₀ q r e, build narrow default = .built p₀ ∧ p₀.run batchLetIn = some p ∧ p.now = 0 ∧
      p.step (.proceed (.call 3)) = some q₀ ∧ q₀.runPunctually secondLook = some q ∧
      q.runPunctually thirdLook = some r ∧
      r.history.looks 3 = [(0, 1), (100, 1), (200, 2)] ∧
      latestAnswer? 3 r.history = some (200, true) ∧
      q₀.runPunctually lastLook = some e ∧
      e.history.looks 3 = [(0, 1), (100, 1), (200, 1), (250, 1)] ∧
      latestAnswer? 3 e.history = some (250, false) ∧
      Course p.history 3 [default, default] p.now (some (p.now + 250)) p.intake.free q ∧
      Course p.history 3 [default, default] p.now (some (p.now + 250)) q.intake.free r ∧
      Course p.history 3 [default, default] p.now (some (p.now + 250)) p.intake.free e := by
  obtain ⟨p₀, hb⟩ : ∃ p₀, build narrow default = .built p₀ := ⟨_, rfl⟩
  have hrun : ((p₀.run batchLetIn).any fun p =>
      (3, .batching [default, default] (.millis 250)) ∈ p.calls &&
        p.producerLock.heldBy (.call 3) && p.refusal? = none && p.now = 0 &&
        (p.step (.proceed (.call 3))).any fun q₀ =>
          ((q₀.runPunctually secondLook).any fun q =>
            (q.history.take (q.history.length - p.history.length)).all
              (·.event matches .tested _ _) &&
            (q.runPunctually thirdLook).any fun r =>
              r.history.looks 3 = [(0, 1), (100, 1), (200, 2)] &&
                latestAnswer? 3 r.history = some (200, true)) &&
          (q₀.runPunctually lastLook).any fun e =>
            e.history.looks 3 = [(0, 1), (100, 1), (200, 1), (250, 1)] &&
              latestAnswer? 3 e.history = some (250, false)) = true := by
    obtain rfl := Construction.built.inj (hb.symm.trans (show build narrow default = _ from rfl))
    decide +kernel
  obtain ⟨p, hp, hlet⟩ := (Option.any_eq_true _ _).mp hrun
  simp only [Bool.and_eq_true, decide_eq_true_eq] at hlet
  obtain ⟨⟨⟨⟨hm, held⟩, haccepted⟩, hnow⟩, hstep⟩ := hlet
  obtain ⟨q₀, hs, hlooks⟩ := (Option.any_eq_true _ _).mp hstep
  obtain ⟨hsecond, hlast⟩ := (Bool.and_eq_true _ _).mp hlooks
  obtain ⟨q, hq, hthird⟩ := (Option.any_eq_true _ _).mp hsecond
  obtain ⟨hnew, hthird⟩ := (Bool.and_eq_true _ _).mp hthird
  obtain ⟨r, hr, hadmitted⟩ := (Option.any_eq_true _ _).mp hthird
  obtain ⟨e, he, hexpired⟩ := (Option.any_eq_true _ _).mp hlast
  obtain ⟨hcourse, hlater⟩ :=
    Reaches.batch_course ⟨batchLetIn, hp⟩ hb hm held haccepted (.millis 250) hs hq
  have hwaits : History.Adds (fun e => ¬ e.ends 3) p.history q.history := by
    obtain ⟨new, hh⟩ := ((Reaches.refl p).step hs |>.trans (.of_runPunctually hq)).suffix
    refine ⟨new, fun x hx => ?_, hh.symm⟩
    simp only [← hh, List.length_append, Nat.add_sub_cancel, List.take_left',
      List.all_eq_true] at hnew
    have := hnew x hx
    revert this
    cases x.event <;> simp
  simp only [Bool.and_eq_true, decide_eq_true_eq] at hadmitted hexpired
  exact ⟨p₀, p, q₀, q, r, e, hb, hp, hnow, hs, hq, hr, hadmitted.1, hadmitted.2, he, hexpired.1,
    hexpired.2, hcourse, hlater hwaits thirdLook r hr,
    (Reaches.batch_course ⟨batchLetIn, hp⟩ hb hm held haccepted (.millis 250) hs he).1⟩

end Pipeline

end DocumentPipeline
