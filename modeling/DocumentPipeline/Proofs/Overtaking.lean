import DocumentPipeline.Proofs.Handoffs
import Mathlib.Algebra.GroupWithZero.Nat

/-! # Who comes before a sender

Before a sender come the messages on its queue and the senders that joined the line earlier.
Others may join the line, leave it or fill their slots, but as long as a sender has no slot nobody
overtakes it: what comes before it never grows, and each message that is taken makes it less.
-/
namespace DocumentPipeline

theorem idxOf_erase_lt {l : List Task} {t u : Task} (h : l.idxOf u < l.idxOf t) :
    (l.erase u).idxOf t < l.idxOf t := by
  induction l with
  | nil => simp at h
  | cons a l ih =>
    by_cases hu : a = u
    · subst hu
      have hne : a ≠ t := by
        rintro rfl
        simp at h
      simp [List.idxOf_cons_ne _ hne]
    · by_cases ht : a = t
      · subst ht
        simp at h
      · rw [List.idxOf_cons_ne _ hu, List.idxOf_cons_ne _ ht] at h
        rw [List.erase_cons_tail (by simpa using hu), List.idxOf_cons_ne _ ht,
          List.idxOf_cons_ne _ ht]
        exact Nat.succ_lt_succ (ih (Nat.lt_of_succ_lt_succ h))

theorem idxOf_erase_le {l : List Task} {t u : Task} (hne : u ≠ t) :
    (l.erase u).idxOf t ≤ l.idxOf t := by
  induction l with
  | nil => simp
  | cons a l ih =>
    by_cases hu : a = u
    · subst hu
      simp [List.idxOf_cons_ne _ hne]
    · rw [List.erase_cons_tail (by simpa using hu)]
      by_cases ht : a = t
      · simp [ht]
      · rw [List.idxOf_cons_ne _ ht, List.idxOf_cons_ne _ ht]
        exact Nat.succ_le_succ ih

namespace History

/-- The number of messages that were taken off the queue of a pool. -/
def departed (role : Role) (h : History) : Nat := (h.map fun x => x.event.departures role).sum

variable {role : Role} {past h : History}

@[simp] theorem departed_cons (x : Entry) (h : History) :
    departed role (x :: h) = x.event.departures role + departed role h := rfl

theorem departed_append (new past : History) :
    departed role (new ++ past) = departed role new + departed role past := by
  simp [departed]

theorem departed_of_adds (ha : Adds (fun e => e.departures role = 0) past h) :
    h.departed role = past.departed role :=
  ha.ignored fun x h hx => by rw [departed_cons, hx, Nat.zero_add]

end History

namespace Queue

variable {α : Type} {q r : Queue α} {t : Task}

/-- The messages and senders that come before a sender. -/
def depth (q : Queue α) (t : Task) : Nat := q.messages.length + q.senders.idxOf t

theorem hasSlot_iff : q.hasSlot t = true ↔ t ∈ q.senders ∧ q.depth t < q.capacity := by
  simp [hasSlot, depth]

theorem le_depth_of_no_slot (ht : t ∈ q.senders) (h : q.hasSlot t = false) :
    q.capacity ≤ q.depth t := by
  simpa [hasSlot, depth, ht] using h

/-- Other tasks than the given one join the line of senders, leave it or fill their slots. -/
inductive Passes (t : Task) (q : Queue α) : Queue α → Prop
  | refl : Passes t q q
  | join {r u} (h : Passes t q r) : Passes t q (r.join u)
  | leave {r u} (h : Passes t q r) (hu : u ≠ t) : Passes t q (r.leave u)
  | push {r u m} (h : Passes t q r) (hu : u ≠ t) (hs : r.hasSlot u = true) :
      Passes t q (r.push u m)

namespace Passes

theorem capacity (h : Passes t q r) : r.capacity = q.capacity := by
  induction h with
  | refl => rfl
  | join _ ih | leave _ _ ih | push _ _ _ ih => exact ih

theorem mem (h : Passes t q r) (ht : t ∈ q.senders) : t ∈ r.senders := by
  induction h with
  | refl => exact ht
  | join _ ih => exact List.mem_append_left _ ih
  | leave _ hu ih | push _ hu _ ih => exact (List.mem_erase_of_ne hu.symm).mpr ih

/-- Nobody overtakes a sender that has no slot. -/
theorem depth_le (h : Passes t q r) (ht : t ∈ q.senders) (hd : q.capacity ≤ r.depth t) :
    r.depth t ≤ q.depth t := by
  induction h with
  | refl => exact Nat.le_refl _
  | @join r u h ih =>
    have hsame : (r.join u).depth t = r.depth t := by
      simp [depth, Queue.join, List.idxOf_append_of_mem (h.mem ht)]
    rw [hsame] at hd ⊢
    exact ih hd
  | @leave r u h hu ih =>
    have hle : (r.leave u).depth t ≤ r.depth t := Nat.add_le_add_left (idxOf_erase_le hu) _
    exact Nat.le_trans hle (ih (Nat.le_trans hd hle))
  | @push r u m h hu hs ih =>
    have hpush : (r.push u m).depth t = r.messages.length + 1 + (r.senders.erase u).idxOf t := by
      simp [depth, Queue.push]
    by_cases hlt : r.senders.idxOf u < r.senders.idxOf t
    · -- the slot of a task that came before is filled
      have hle : (r.push u m).depth t ≤ r.depth t := by
        have := idxOf_erase_lt hlt
        rw [hpush, depth]
        omega
      exact Nat.le_trans hle (ih (Nat.le_trans hd hle))
    · -- a task that comes later has its slot only if this one has one, too
      have hidx := idxOf_erase_le (l := r.senders) hu
      have hne : r.senders.idxOf t ≠ r.senders.idxOf u := fun he =>
        hu ((List.idxOf_inj (h.mem ht)).mp he).symm
      have hslot := (hasSlot_iff.mp hs).2
      rw [h.capacity, depth] at hslot
      rw [hpush] at hd
      omega

end Passes

end Queue

namespace Pipeline

open Queue (Passes)

section Steps

variable {p q : Pipeline} {i j n : Nat} {t u : Task} {line : Queue Payload}

/-- A task polls, and joins the line if it comes to an injection. -/
theorem PollResult.passes {v : Pipeline × Verdict} (h : PollResult p u v)
    (hp : Passes t line p.outtake) : Passes t line v.1.outtake := by
  cases h with
  | notStarted | latched => exact hp
  | failed _ _ hc => exact outtake_of_collect hc ▸ hp
  | injecting _ _ hc => exact .join (outtake_of_collect hc ▸ hp)
  | noEmitters _ _ hc => exact (outtake_of_collect hc ▸ hp : Passes t line _)
  | active _ _ hc => exact outtake_of_collect hc ▸ hp

theorem Injected.passes {k : Injection} {v : Pipeline × Verdict} (h : Injected p u k v)
    (hu : u ≠ t) (hp : Passes t line p.outtake) : Passes t line v.1.outtake := by
  cases h with
  | last hs => exact hp.push hu hs
  | next hs => exact (hp.push hu hs).join
  | stalled _ _ hq => subst hq; exact hp.leave hu

theorem passes_endFetcher {w : Fetcher} {e : Ending} (hu : .fetcher i ≠ t)
    (hp : Passes t line p.outtake) : Passes t line (p.endFetcher i w e).outtake := by
  unfold endFetcher
  split <;> exact hp.leave hu

theorem passes_afterFetcherPoll {w : Fetcher} {v : Pipeline × Verdict} (hu : .fetcher i ≠ t)
    (hp : Passes t line v.1.outtake) : Passes t line (afterFetcherPoll i w v).outtake := by
  obtain ⟨q, v⟩ := v
  cases v with
  | failed e => exact passes_endFetcher hu hp
  | active | injecting => exact hp

theorem passes_tryPoll {w : Fetcher} (hu : .fetcher i ≠ t) (hp : Passes t line p.outtake) :
    Passes t line (p.tryPoll i w).outtake := by
  unfold tryPoll
  split
  · exact passes_afterFetcherPoll hu
      ((poll_result (p.requestTracker (.fetcher i)) (.fetcher i)).passes hp)
  · exact hp

theorem passes_afterOfferPoll {item : WorkItem} {wait : Wait} {v : Pipeline × Verdict}
    (hu : .call n ≠ t) (hp : Passes t line v.1.outtake) :
    Passes t line (afterOfferPoll n item wait v).outtake := by
  obtain ⟨q, v⟩ := v
  cases v with
  | failed e => exact hp.leave hu
  | active | injecting => exact hp

theorem passes_afterCheckPoll {v : Pipeline × Verdict} (hu : .call n ≠ t)
    (hp : Passes t line v.1.outtake) : Passes t line (afterCheckPoll n v).outtake := by
  obtain ⟨q, v⟩ := v
  cases v with
  | failed | active => exact hp.leave hu
  | injecting => exact hp

theorem Invocation.passes {r : Request} (h : Invocation p n r q) (hu : .call n ≠ t) :
    Passes t p.outtake q.outtake := by
  cases h with
  | start | check | status | offer | batch | finish => exact .refl
  | batchRefused | batchTooLarge | batchEmpty | finishEarly | finishLate | finishAgain =>
    exact .leave .refl hu

theorem CallMove.passes {s : CallStage} (h : CallMove p n s q) (hu : .call n ≠ t) :
    Passes t p.outtake q.outtake := by
  cases h with
  | startedBefore | opened | offerRefused | sent | unsent | batchRefused | batchAdmitted
  | batchExpired | noStops | lastStop | stalledOut | read => exact .leave .refl hu
  | launching | launchFetcher | launchEmitter | offerAccepted | batchPaused | firstStop | nextStop
  | stopStalled => exact .refl
  | offerPolled => exact passes_afterOfferPoll hu ((poll_result _ _).passes .refl)
  | offerInjected hi => exact passes_afterOfferPoll hu ((inject?_injected hi).passes hu .refl)
  | checked => exact passes_afterCheckPoll hu ((poll_result _ _).passes .refl)
  | checkInjected hi => exact passes_afterCheckPoll hu ((inject?_injected hi).passes hu .refl)

theorem FetcherMove.passes {w : Fetcher} (h : FetcherMove p i w q) (hu : .fetcher i ≠ t) :
    Passes t p.outtake q.outtake := by
  cases h with
  | abort | notCreated => exact passes_endFetcher hu .refl
  | create | created | acquire | receiveItem => exact .refl
  | receiveStop =>
    exact passes_endFetcher (p := { Pipeline.record _ _ with intakeLock := _ }) hu .refl
  | idle => exact passes_tryPoll (p := { p with intakeLock := _ }) hu .refl
  | handOver => exact .join .refl
  | settle => exact passes_tryPoll (p := { Pipeline.record _ _ with totalProcessed := _ }) hu .refl
  | lose => exact passes_endFetcher (p := Pipeline.record _ _) hu .refl
  | handed _ hs =>
    exact passes_tryPoll (p := { Pipeline.record _ _ with totalProcessed := _ }) hu
      (.push .refl hu hs)
  | stalled => exact passes_endFetcher (p := Pipeline.record _ _) hu (.leave .refl hu)
  | injected _ hi => exact passes_afterFetcherPoll hu ((inject?_injected hi).passes hu .refl)

/-- As long as no emit worker works, none takes a message. -/
theorem departed_of_idles (h : ∀ j, Idles (.emitter j) p q) :
    q.history.departed .emit = p.history.departed .emit := by
  obtain ⟨new, -, hh⟩ := (h 0).history
  refine History.departed_of_adds ⟨new, fun x hx => ?_, hh⟩
  obtain ⟨time, e⟩ := x
  cases e with
  | taken j m =>
    obtain ⟨new', hn, hh'⟩ := (h j).history
    obtain rfl := List.append_cancel_right (hh.symm.trans hh')
    exact absurd rfl (hn _ hx)
  | _ => rfl

/-- An emit worker leaves the line of the outtake queue alone, and takes one message at most. -/
theorem EmitterMove.passes {w : EmitWorker} (h : EmitterMove p j w q) (hu : .emitter j ≠ t) :
    ∃ k ≤ p.outtake.messages.length,
      Passes t { p.outtake with messages := p.outtake.messages.drop k } q.outtake ∧
      q.history.departed .emit = p.history.departed .emit + k := by
  cases h with
  | abort => exact ⟨0, Nat.zero_le _, .leave .refl hu, Nat.zero_add _⟩
  | queue | acquire => exact ⟨0, Nat.zero_le _, .refl, rfl⟩
  | takeStop _ hm =>
    refine ⟨1, by simp [hm], .leave ?_ hu, (Nat.zero_add _).trans (Nat.add_comm _ _)⟩
    simp only [hm, List.drop_one, List.tail_cons]
    exact .refl
  | takePayload _ hm =>
    refine ⟨1, by simp [hm], ?_, (Nat.zero_add _).trans (Nat.add_comm _ _)⟩
    simp only [hm, List.drop_one, List.tail_cons]
    exact .refl
  | delivered => exact ⟨0, Nat.zero_le _, .refl, Nat.zero_add _⟩
  | failed => exact ⟨0, Nat.zero_le _, .leave .refl hu, (Nat.zero_add _).trans (Nat.zero_add _)⟩

/-- Beside its own steps a fetch worker does nothing, and as long as it stands in line at the
outtake queue and has no slot, every message that is taken brings it forward. -/
theorem Move.forward (hm : Move p q) (i : Nat) :
    (∃ w, p.fetchers[i]? = some w ∧ FetcherMove p i w q) ∨
      Idles (.fetcher i) p q ∧ (.fetcher i ∈ p.outtake.senders →
        p.outtake.capacity ≤ q.outtake.depth (.fetcher i) →
          q.history.departed .emit + q.outtake.depth (.fetcher i) ≤
            p.history.departed .emit + p.outtake.depth (.fetcher i)) := by
  have passed (h : ∀ t, t = .fetcher i ∨ (∃ j, t = .emitter j) → Idles t p q)
      (hp : Passes (.fetcher i) p.outtake q.outtake) :
      Idles (.fetcher i) p q ∧ (.fetcher i ∈ p.outtake.senders →
        p.outtake.capacity ≤ q.outtake.depth (.fetcher i) →
          q.history.departed .emit + q.outtake.depth (.fetcher i) ≤
            p.history.departed .emit + p.outtake.depth (.fetcher i)) := by
    refine ⟨h _ (.inl rfl), fun hi hd => ?_⟩
    rw [departed_of_idles fun j => h _ (.inr ⟨j, rfl⟩)]
    exact Nat.add_le_add_left (hp.depth_le hi hd) _
  cases hm with
  | @invoke n r q hn h =>
    refine .inr (passed (fun t _ => ?_) (h.passes (by simp)))
    exact .trans (.record (.refl p) (by simp)) h.idles
  | cancel => exact .inr (passed (fun t _ => .single rfl rfl (by simp)) (.leave .refl (by simp)))
  | close =>
    refine .inr (passed (fun t _ => close_idles p) ?_)
    unfold Pipeline.close
    split <;> exact .refl
  | drop => exact .inr (passed (fun t _ => drop_idles p) .refl)
  | tick => exact .inr (passed (fun t _ => .silent rfl rfl) .refl)
  | call hn hc => exact .inr (passed (fun t _ => hc.idles) (hc.passes (by simp)))
  | @fetcher k w q hw hf =>
    by_cases hk : k = i
    · subst hk
      exact .inl ⟨w, hw, hf⟩
    · refine .inr (passed (fun t ht => hf.idles ?_) (hf.passes (by simpa using hk)))
      rcases ht with rfl | ⟨j, rfl⟩
      · simpa using Ne.symm hk
      · simp
  | @emitter j w q hw he =>
    refine .inr ⟨he.idles (by simp), fun hi hd => ?_⟩
    obtain ⟨k, hk, hp, hdep⟩ := he.passes (t := .fetcher i) (by simp)
    have hle := hp.depth_le hi hd
    simp only [Queue.depth, List.length_drop] at hle ⊢
    omega

end Steps

end Pipeline

end DocumentPipeline
