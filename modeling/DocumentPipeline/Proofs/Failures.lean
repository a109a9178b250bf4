import DocumentPipeline.Proofs.Announcement
import DocumentPipeline.Proofs.Verdicts

/-! # The failure that is latched

Once a failure has been latched every check reports it, and only one thing can take its place:
the stall of an announcement, which is latched without a look at what is there. So a check
never says again that all is well, and it changes its mind at most once, to that stall.
-/
namespace DocumentPipeline

namespace History

/-- The latest failure that was latched. -/
def failure? : History → Option Failure
  | [] => none
  | x :: h =>
    match x.event with
    | .latched f => some f
    | _ => failure? h

theorem failure?_of_ne {x : Entry} {h : History} (hx : ∀ f, x.event ≠ .latched f) :
    failure? (x :: h) = failure? h := by
  obtain ⟨time, e⟩ := x
  cases e <;> simp_all [failure?]

theorem failure?_of_suffix {past h : History} (hs : past <:+ h) (hn : h.failure? = none) :
    past.failure? = none := by
  obtain ⟨later, rfl⟩ := hs
  induction later with
  | nil => exact hn
  | cons x later ih =>
    refine ih ((failure?_of_ne fun f hf => ?_).symm.trans hn)
    simp [failure?, hf] at hn

end History

/-- What becomes of an announcement that waits too long for a slot. -/
def Settings.stall (s : Settings) : Failure :=
  .stalled Cargo.fetchStop.label s.maxOfferWaitMs.toNat

/-- A check tells of the failure that is latched, and only the stall of an announcement is
latched over another failure. -/
def Faithful (s : Settings) : Event → History → Prop
  | .replied _ (.active r), past => ∀ f, past.failure? = some f → r = .error f.error
  | .latched f, past => past.failure? ≠ none → f = s.stall
  | _, _ => True

theorem faithful_of_not_isVerdict {s : Settings} {e : Event} {past : History}
    (h : e.isVerdict = false) : Faithful s e past := by
  cases e with
  | replied n a => cases a <;> simp_all [Faithful]
  | latched f => cases h
  | _ => trivial

/-- The latched failure is still the last one, or the stall of an announcement has taken its
place. -/
theorem History.Each.failure?_eq {s : Settings} {time : Nat} {f : Failure} {later past : History}
    (h : Each (Faithful s) (later ++ ⟨time, .latched f⟩ :: past)) :
    (failure? (later ++ ⟨time, .latched f⟩ :: past) = some f ∧
      ∀ x ∈ later, ∀ g, x.event ≠ .latched g) ∨
    failure? (later ++ ⟨time, .latched f⟩ :: past) = some s.stall ∧
      (∃ x ∈ later, x.event = .latched s.stall) ∧
      ∀ x ∈ later, ∀ g, x.event = .latched g → g = s.stall := by
  induction later with
  | nil => exact .inl ⟨rfl, by simp⟩
  | cons x later ih =>
    obtain ⟨time', e⟩ := x
    have ih := ih h.2
    by_cases he : ∃ g, e = .latched g
    · obtain ⟨g, rfl⟩ := he
      have hg : g = s.stall := h.1 (by rcases ih with ⟨hf, -⟩ | ⟨hf, -⟩ <;> simp [hf])
      subst hg
      refine .inr ⟨rfl, ⟨_, List.mem_cons_self, rfl⟩, fun y hy g hg => ?_⟩
      rcases List.mem_cons.mp hy with rfl | hy
      · exact (Event.latched.inj hg).symm
      · rcases ih with ⟨-, hnone⟩ | ⟨-, -, hall⟩
        · exact absurd hg (hnone y hy g)
        · exact hall y hy g hg
    · have hne : ∀ g, e ≠ .latched g := fun g hg => he ⟨g, hg⟩
      rw [List.cons_append, failure?_of_ne hne]
      rcases ih with ⟨hf, hnone⟩ | ⟨hf, ⟨y, hy, hye⟩, hall⟩
      · refine .inl ⟨hf, fun y hy => ?_⟩
        rcases List.mem_cons.mp hy with rfl | hy
        · exact hne
        · exact hnone y hy
      · refine .inr ⟨hf, ⟨y, List.mem_cons_of_mem _ hy, hye⟩, fun z hz g hg => ?_⟩
        rcases List.mem_cons.mp hz with rfl | hz
        · exact absurd hg (hne g)
        · exact hall z hz g hg

namespace Pipeline

/-- The tracker keeps the failure that was latched last, and none is latched before the start. -/
structure Latching (s : Settings) (p : Pipeline) : Prop where
  kept : p.history.failure? = p.tracker.failure
  faithful : History.Each (Faithful s) p.history
  unopened : p.started = false →
    p.stopsClaimed = false ∧ p.history.log Event.collection = [] ∧ p.tracker.failure = none

/-- If a failure is latched, the poll has come to it. -/
def Tells (v : Pipeline × Verdict) : Prop :=
  ∀ f, v.1.tracker.failure = some f → v.2 = .failed f.error

namespace Latching

variable {s : Settings} {p q : Pipeline} {t : Task} {n : Nat}

theorem calm (h : Latching s p) (hc : Calm p q) : Latching s q where
  kept := by
    rw [hc.failure, ← h.kept]
    exact hc.history.ignored fun x g hx => History.failure?_of_ne fun f hf => by simp [hf] at hx
  faithful := hc.history.each (fun e _ he => faithful_of_not_isVerdict he) h.faithful
  unopened hs := by
    have hp : p.started = false := by
      by_contra hp
      rw [hc.started (by simpa using hp)] at hs
      cases hs
    obtain ⟨hclaimed, hnone, hf⟩ := h.unopened hp
    refine ⟨?_, hc.collections.trans hnone, hc.failure.trans hf⟩
    by_contra hq
    rcases hc.claimed (by simpa using hq) with hc | hc
    · rw [hclaimed] at hc; cases hc
    · rw [hs] at hc; cases hc

theorem collects (h : Latching s p) (hc : Collects p q) (hs : q.started = true) :
    Latching s q where
  kept := by
    rw [hc.failure, ← h.kept]
    refine hc.history.ignored fun x g hx => History.failure?_of_ne fun f hf => ?_
    obtain ⟨t, e, hx⟩ := hx
    rw [hx] at hf
    cases hf
  faithful := hc.history.each (by rintro _ _ ⟨t, e, rfl⟩; trivial) h.faithful
  unopened hn := by rw [hs] at hn; cases hn

/-- A failure is latched for the first time, or an announcement stalls. -/
theorem fail {f : Failure} (h : Latching s p) (hs : p.started = true)
    (hf : p.tracker.failure = none ∨ f = s.stall) : Latching s (p.fail f) where
  kept := rfl
  faithful := by
    refine ⟨fun hne => ?_, h.faithful⟩
    rcases hf with hf | hf
    · exact absurd (h.kept.trans hf) hne
    · exact hf
  unopened hn := by
    rw [show (p.fail f).started = p.started from rfl, hs] at hn
    cases hn

theorem poll {v : Pipeline × Verdict} (h : Latching s p) (hv : PollResult p t v) :
    Latching s v.1 ∧ Tells v := by
  cases hv with
  | notStarted hs =>
    refine ⟨h, fun f hf => ?_⟩
    rw [(h.unopened hs).2.2] at hf
    cases hf
  | latched hs hf =>
    refine ⟨h, fun g hg => ?_⟩
    rw [hf] at hg
    cases hg
    rfl
  | failed hs hf hc =>
    obtain ⟨r, hr, rfl⟩ := collects_of_collect_failed hc
    have hopen : r.started = true := (Polled.of_collect hc).started.trans hs
    refine ⟨(h.collects hr hopen).fail hopen (.inl (hr.failure.trans hf)), fun g hg => ?_⟩
    cases hg
    rfl
  | @injecting q hs hf hc =>
    have hr := collects_of_collect hc
    have hq := h.collects hr ((Polled.of_collect hc).started.trans hs)
    refine ⟨hq.calm (.queueEmitStop (.refl q)), fun g hg => ?_⟩
    cases (hr.failure.trans hf).symm.trans hg
  | @noEmitters q hs hf hc =>
    have hr := collects_of_collect hc
    have hq := h.collects hr ((Polled.of_collect hc).started.trans hs)
    refine ⟨⟨hq.kept, hq.faithful, hq.unopened⟩, fun g hg => ?_⟩
    cases (hr.failure.trans hf).symm.trans hg
  | active hs hf hc =>
    have hr := collects_of_collect hc
    refine ⟨h.collects hr ((Polled.of_collect hc).started.trans hs), fun g hg => ?_⟩
    cases (hr.failure.trans hf).symm.trans hg

theorem injected {i : Injection} {v : Pipeline × Verdict} (h : Latching s p)
    (hf : p.tracker.failure = none) (hs : p.started = true) (hv : Injected p t i v) :
    Latching s v.1 ∧ Tells v := by
  have hpush : Calm p ({ p with outtake := p.outtake.push t .stop }.record (.stopQueued .emit)) :=
    .noting (.refl p) rfl rfl
  cases hv with
  | last =>
    have hl := h.calm hpush
    refine ⟨⟨hl.kept, hl.faithful, hl.unopened⟩, fun g hg => ?_⟩
    cases hf.symm.trans hg
  | next =>
    refine ⟨h.calm hpush.queueEmitStop, fun g hg => ?_⟩
    cases hf.symm.trans hg
  | stalled _ _ hq hl =>
    subst hq hl
    have hq : Calm p
        ({ p with outtake := p.outtake.leave t }.record (.handoffStalled t .emitStop)) :=
      .noting (.refl p) rfl rfl
    have hl := h.calm hq
    refine ⟨fail ⟨hl.kept, hl.faithful, hl.unopened⟩ hs (.inl hf), fun g hg => ?_⟩
    cases hg
    rfl

theorem answer {r : Except PipelineError Bool} (h : Latching s p)
    (hr : ∀ f, p.tracker.failure = some f → r = .error f.error) :
    Latching s (p.reply n (.active r)) where
  kept := h.kept
  faithful := ⟨fun f hf => hr f (h.kept.symm.trans hf), h.faithful⟩
  unopened hs := by simpa [Pipeline.reply, release, record] using h.unopened hs

theorem afterCheckPoll {v : Pipeline × Verdict} (h : Latching s v.1) (ht : Tells v) :
    Latching s (afterCheckPoll n v) := by
  obtain ⟨q, v⟩ := v
  cases v with
  | failed e =>
    refine h.answer fun f hf => ?_
    rw [Verdict.failed.inj (ht f hf)]
  | active b => exact h.answer fun f hf => by cases ht f hf
  | injecting i => exact ⟨h.kept, h.faithful, h.unopened⟩

theorem move (h : Latching s p) (hset : p.settings = s) (hk : Handshake p)
    (ha : Announced p p.history.announcement) (hx : Sections p)
    (hpos : 0 < p.settings.numClients.toNat) (hm : Move p q) : Latching s q := by
  cases hm.judged hk with
  | calm hc => exact h.calm hc
  | polled hr _ hq => exact ((h.calm hr).poll (poll_result _ _)).1.calm hq
  | checked =>
    obtain ⟨hl, ht⟩ := h.poll (poll_result _ _)
    exact hl.afterCheckPoll ht
  | @injected n i v hcall hi =>
    obtain ⟨hf, -, -, hin⟩ := hk.check n i hcall
    -- the fetch workers have been collected, so they have been launched
    have hs : p.started = true := by
      by_contra hs
      have hnone := (h.unopened (by simpa using hs)).2.1
      have hfirst := hin 0 hpos
      rw [hnone] at hfirst
      cases hfirst
    obtain ⟨hl, ht⟩ := h.injected hf hs hi
    exact hl.afterCheckPoll ht
  | stalledOut hcall =>
    obtain ⟨-, hclaimed, -, -⟩ := ha.of_announces hx hcall rfl
    have hs : p.started = true := by
      by_contra hs
      rw [(h.unopened (by simpa using hs)).1] at hclaimed
      cases hclaimed
    have hl : Latching s (p.fail (.stalled Cargo.fetchStop.label p.ceiling)) :=
      h.fail hs (.inr (by rw [← hset]; rfl))
    exact hl.calm (.reply (.refl _) rfl)

end Latching

variable {settings : Settings} {origin : Instant} {p q : Pipeline}

theorem Reaches.latching (h : p.Reaches q) (hb : build settings origin = .built p) :
    Latching q.settings q := by
  rw [h.settings]
  refine h.invariant ?_ fun r s hr ih hm =>
    ih.move hr.settings (hr.handshake hb) (hr.announced hb) (hr.sections hb)
      (hr.numClients_pos hb) hm
  obtain ⟨-, -, rfl⟩ := build_eq_built hb
  exact ⟨rfl, trivial, fun _ => ⟨rfl, rfl, rfl⟩⟩

/-- From the step on that latches a failure, every check reports this failure, until an
announcement stalls; from then on every check reports that stall. -/
theorem Reaches.failure_reported (h : p.Reaches q) (hb : build settings origin = .built p)
    {later past : History} {time : Nat} {f : Failure}
    (hl : q.history = later ++ ⟨time, .latched f⟩ :: past) :
    (∀ x ∈ later, ∀ g, x.event = .latched g → g = q.settings.stall) ∧
      ∀ (after before : History) time' n r,
        later = after ++ ⟨time', .replied n (.active r)⟩ :: before →
          ((∀ x ∈ before, ∀ g, x.event ≠ .latched g) → r = .error f.error) ∧
          ((∃ x ∈ before, ∃ g, x.event = .latched g) → r = .error q.settings.stall.error) := by
  have hfaithful := (h.latching hb).faithful
  rw [hl] at hfaithful
  constructor
  · intro x hx g hg
    rcases hfaithful.failure?_eq with ⟨-, hnone⟩ | ⟨-, -, hall⟩
    · exact absurd hg (hnone x hx g)
    · exact hall x hx g hg
  · intro after before time' n r hlater
    have hsuffix : ⟨time', .replied n (.active r)⟩ :: (before ++ ⟨time, .latched f⟩ :: past) <:+
        later ++ ⟨time, .latched f⟩ :: past := ⟨after, by simp [hlater]⟩
    have htold : ∀ g : Failure, (before ++ ⟨time, .latched f⟩ :: past).failure? = some g →
        r = .error g.error := hfaithful.of_suffix hsuffix
    have hbefore : History.Each (Faithful q.settings) (before ++ ⟨time, .latched f⟩ :: past) := by
      have hadds : History.Adds (fun _ => True) (before ++ ⟨time, .latched f⟩ :: past)
          (later ++ ⟨time, .latched f⟩ :: past) :=
        ⟨after ++ [⟨time', .replied n (.active r)⟩], by simp, by simp [hlater]⟩
      exact hfaithful.of_adds hadds
    rcases hbefore.failure?_eq with ⟨hf, hnone⟩ | ⟨hf, ⟨x, hx, hstall⟩, -⟩
    · exact ⟨fun _ => htold f hf, fun ⟨x, hx, g, hg⟩ => absurd hg (hnone x hx g)⟩
    · exact ⟨fun hnone => absurd hstall (hnone x hx _), fun _ => htold _ hf⟩

/-- Room for one item and one worker in each pool, and a ceiling of three seconds. -/
def tight : Settings :=
  { queueSize := 1, numClients := 1, numEmitters := 1, maxOfferWaitMs := 3000 }

/-- The end of the work is announced while the queue is full. The fetch worker fails, a check
latches its failure, and then the announcement stalls. -/
def overtakenFailure : List Action :=
  .invoke 0 .start :: List.replicate 4 (.proceed (.call 0)) ++
    [.invoke 1 (.offer default .endless), .proceed (.call 1), .proceed (.call 1),
      .proceed (.call 1),
      .proceed (.fetcher 0), .clientReturns 0 (.value ()), .proceed (.fetcher 0),
      .proceed (.fetcher 0),
      .invoke 2 (.offer default .endless), .proceed (.call 2), .proceed (.call 2),
      .proceed (.call 2), .invoke 3 .finish, .proceed (.call 3),
      .processReturns 0 (.error (.fatal default)), .invoke 4 .checkActive, .proceed (.call 4),
      .tick 3000, .proceed (.call 3), .proceed (.call 3), .invoke 5 .checkActive,
      .proceed (.call 5)]

theorem overtakenFailure_reported :
    ∃ p q, build tight default = .built p ∧ p.run overtakenFailure = some q ∧
      ∃ (later past : History) (time : Nat) (f : Failure),
        q.history = later ++ ⟨time, .latched f⟩ :: past ∧ later.length = 6 ∧
        (∀ x ∈ later, ∀ g, x.event = .latched g → g = q.settings.stall) ∧
          ∀ (after before : History) time' n r,
            later = after ++ ⟨time', .replied n (.active r)⟩ :: before →
              ((∀ x ∈ before, ∀ g, x.event ≠ .latched g) → r = .error f.error) ∧
              ((∃ x ∈ before, ∃ g, x.event = .latched g) → r = .error q.settings.stall.error) := by
  refine ⟨_, _, rfl, rfl, [_, _, _, _, _, _], _, _, _, rfl, rfl, ?_⟩
  exact Reaches.failure_reported ⟨overtakenFailure, rfl⟩
    (show build tight default = _ from rfl) rfl

/-- A check that comes after the stall reports another failure than the first one. -/
theorem overtakenFailure_replaced :
    ∃ p q, build tight default = .built p ∧ p.run overtakenFailure = some q ∧
      ∃ (later past : History) (time : Nat) (f : Failure),
        q.history = later ++ ⟨time, .latched f⟩ :: past ∧
        ¬ ∀ x ∈ later, ∀ n r, x.event = .replied n (.active r) → r = .error f.error := by
  refine ⟨_, _, rfl, rfl, [_, _, _, _, _, _], _, _, _, rfl, fun h => ?_⟩
  have := h _ List.mem_cons_self 5 _ rfl
  simp [Failure.error] at this

end Pipeline

end DocumentPipeline
