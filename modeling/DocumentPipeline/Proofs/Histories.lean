import DocumentPipeline.Pipeline.Step
import Mathlib.Data.List.Perm.Basic

/-! # What a history tells

A log is the part of a history that concerns one kind of event, oldest first. The
logs are projections of the recorded events only; that they agree with the queues,
counters and stages of the pipeline is proved elsewhere.
-/
namespace DocumentPipeline

/-- What a client's return means for its item. Nothing, if it takes the worker down. -/
def Return.outcome? : Return ClientError Outcome → Option Outcome
  | .value o => some o
  | .error e => if e.isPerItem then some .crashed else none
  | .panic _ => none

/-- The payload of a clean parse. -/
def Outcome.clean? : Outcome → Option Payload
  | .parsed payload => some payload
  | _ => none

/-- The payload that a client's return asks to be emitted: that of a clean parse. -/
def Return.payload? : Return ClientError Outcome → Option Payload
  | .value (.parsed payload) => some payload
  | _ => none

/-- The payload that a worker hands on is that of a clean parse. -/
theorem Outcome.emittable?_eq_clean? (o : Outcome) : o.emittable? = o.clean? := by cases o <;> rfl

theorem Return.payload?_eq (r : Return ClientError Outcome) :
    r.payload? = r.outcome? >>= Outcome.clean? := by
  cases r with
  | value o => cases o <;> rfl
  | error e =>
    rw [outcome?]
    split <;> rfl
  | panic m => rfl

/-- The item or payload of a message that is no signal. -/
def Message.content? {α : Type} : Message α → Option α
  | .data a => some a
  | .stop => none

/-- The items of a submission. -/
def Request.items : Request → List WorkItem
  | .offer item _ => [item]
  | .offerBatch items _ => items
  | _ => []

namespace Event

/-- Messages that enter the intake queue. -/
@[simp] def enqueued : Event → List (Message WorkItem)
  | admitted _ items => items.map .data
  | stopQueued .fetch => [.stop]
  | _ => []

/-- The message that a fetch worker takes. -/
@[simp] def receipt : Event → List (Nat × Message WorkItem)
  | received i m => [(i, m)]
  | _ => []

@[simp] def processCall : Event → List (Nat × WorkItem)
  | processBegan i item => [(i, item)]
  | _ => []

@[simp] def processResult : Event → List (Nat × WorkItem × Return ClientError Outcome)
  | processEnded i item r => [(i, item, r)]
  | _ => []

@[simp] def report : Event → List (Nat × WorkItem × Outcome)
  | reported i item o _ => [(i, item, o)]
  | _ => []

/-- The payload that a fetch worker places on the outtake queue. -/
@[simp] def placement : Event → List (Nat × Payload)
  | payloadQueued i p => [(i, p)]
  | _ => []

/-- Messages that enter the outtake queue. -/
@[simp] def outQueued : Event → List (Message Payload)
  | payloadQueued _ p => [.data p]
  | stopQueued .emit => [.stop]
  | _ => []

/-- The message that an emit worker takes. -/
@[simp] def taking : Event → List (Nat × Message Payload)
  | taken j m => [(j, m)]
  | _ => []

@[simp] def emitCall : Event → List (Nat × Payload)
  | emitBegan j p => [(j, p)]
  | _ => []

@[simp] def exit : Event → List (Task × Ending)
  | exited t e => [(t, e)]
  | _ => []

@[simp] def collection : Event → List (Task × Ending)
  | collected t e => [(t, e)]
  | _ => []

/-- Whether the event only concerns the tracking of workers: their collection, a latched
failure, or a hand-off that begins to wait. -/
@[simp] def isTracking : Event → Bool
  | collected _ _ | latched _ | handoffBegan _ _ => true
  | _ => false

/-- Whether the event concerns the way of items, payloads and signals through the pipeline. -/
@[simp] def isFlow : Event → Bool
  | admitted _ _ | stopQueued _ | received _ _ | processBegan _ _ | processEnded _ _ _
  | payloadQueued _ _ | reported _ _ _ _ | taken _ _ | emitBegan _ _ => true
  | _ => false

theorem isFlow_of_isTracking {e : Event} (h : e.isTracking = true) : e.isFlow = false := by
  cases e <;> simp_all

end Event

namespace History

variable {α β : Type}

/-- A log of the history, oldest first. -/
def log (f : Event → List α) (h : History) : List α := h.reverse.flatMap fun x => f x.event

@[simp] theorem log_nil (f : Event → List α) : log f [] = [] := rfl

@[simp] theorem log_cons (f : Event → List α) (x : Entry) (h : History) :
    log f (x :: h) = log f h ++ f x.event := by
  simp [log]

theorem mem_log {f : Event → List α} {h : History} {a : α} :
    a ∈ h.log f ↔ ∃ x ∈ h, a ∈ f x.event := by
  simp [log]

/-- A log of the past is the beginning of the log. -/
theorem log_prefix_of_suffix (f : Event → List α) {past h : History} (hp : past <:+ h) :
    past.log f <+: h.log f := by
  obtain ⟨later, rfl⟩ := hp
  exact ⟨log f later, by simp [log]⟩

theorem length_log_le (f : Event → List α) {past h : History} (hp : past <:+ h) :
    (past.log f).length ≤ (h.log f).length :=
  (log_prefix_of_suffix f hp).length_le

/-- The latest request made under a number. -/
def requestOf (n : Nat) : History → Option Request
  | [] => none
  | x :: h =>
    match x.event with
    | .invoked m r => if m = n then some r else requestOf n h
    | _ => requestOf n h

/-- The submissions answered with success, in the order of the answers. -/
def submissions : History → List (List WorkItem)
  | [] => []
  | x :: h =>
    match x.event with
    | .replied n (.offered (.ok true)) =>
      submissions h ++ [((requestOf n h).map Request.items).getD []]
    | _ => submissions h

theorem submissions_of_ne {x : Entry} {h : History}
    (hx : ∀ n, x.event ≠ .replied n (.offered (.ok true))) :
    submissions (x :: h) = submissions h := by
  rw [submissions]
  split
  · next n he => exact absurd he (hx n)
  · rfl

/-- Whether every event was recorded on top of a past that allows it. -/
def Each (P : Event → History → Prop) : History → Prop
  | [] => True
  | x :: h => P x.event h ∧ Each P h

theorem Each.of_suffix {P : Event → History → Prop} {h past : History} {x : Entry}
    (he : Each P h) (hs : x :: past <:+ h) : P x.event past := by
  induction h with
  | nil => simp at hs
  | cons y h ih =>
    rcases List.suffix_cons_iff.mp hs with heq | hs
    · obtain ⟨rfl, rfl⟩ := List.cons.inj heq
      exact he.1
    · exact ih he.2 hs

theorem Each.of_forall {P : Event → History → Prop} {h : History}
    (he : ∀ (x : Entry) (past : History), x :: past <:+ h → P x.event past) : Each P h := by
  induction h with
  | nil => trivial
  | cons y h ih =>
    exact ⟨he y h List.suffix_rfl, ih fun x past hs => he x past (hs.trans (List.suffix_cons _ _))⟩

theorem Each.mono {P Q : Event → History → Prop} {h : History} (he : Each P h)
    (hPQ : ∀ e past, P e past → Q e past) : Each Q h := by
  induction h with
  | nil => trivial
  | cons x h ih => exact ⟨hPQ _ _ he.1, ih he.2⟩

/-- Only events of a kind were recorded on top of the past. -/
def Adds (P : Event → Prop) (past h : History) : Prop :=
  ∃ new, (∀ x ∈ new, P x.event) ∧ h = new ++ past

namespace Adds

variable {P Q : Event → Prop} {past g h : History}

theorem refl (h : History) : Adds P h h := ⟨[], by simp, rfl⟩

theorem one {x : Entry} (hx : P x.event) : Adds P h (x :: h) := ⟨[x], by simpa using hx, rfl⟩

theorem trans (hg : Adds P past g) (hh : Adds P g h) : Adds P past h := by
  obtain ⟨older, ho, rfl⟩ := hg
  obtain ⟨newer, hn, rfl⟩ := hh
  refine ⟨newer ++ older, ?_, by rw [List.append_assoc]⟩
  intro x hx
  rcases List.mem_append.mp hx with hx | hx
  · exact hn x hx
  · exact ho x hx

theorem mono (ha : Adds P past h) (hP : ∀ e, P e → Q e) : Adds Q past h := by
  obtain ⟨new, hn, rfl⟩ := ha
  exact ⟨new, fun x hx => hP _ (hn x hx), rfl⟩

theorem and (hp : Adds P past h) (hq : Adds Q past h) : Adds (fun e => P e ∧ Q e) past h := by
  obtain ⟨new, hnew, rfl⟩ := hp
  obtain ⟨same, hsame, heq⟩ := hq
  obtain rfl := List.append_cancel_right heq
  exact ⟨new, fun x hx => ⟨hnew x hx, hsame x hx⟩, rfl⟩

theorem suffix (ha : Adds P past h) : past <:+ h := by
  obtain ⟨new, -, rfl⟩ := ha
  exact ⟨new, rfl⟩

theorem mem (ha : Adds P past h) {x : Entry} (hx : x ∈ h) : P x.event ∨ x ∈ past := by
  obtain ⟨new, hn, rfl⟩ := ha
  exact (List.mem_append.mp hx).imp_left (hn x)

theorem split (ha : Adds P past h) (hg : past <:+ g) (hh : g <:+ h) :
    Adds P past g ∧ Adds P g h := by
  obtain ⟨new, hn, hnew⟩ := ha
  obtain ⟨older, rfl⟩ := hg
  obtain ⟨newer, rfl⟩ := hh
  rw [← List.append_assoc] at hnew
  obtain rfl := List.append_cancel_right hnew
  exact ⟨⟨older, fun x hx => hn x (List.mem_append_right _ hx), rfl⟩,
    newer, fun x hx => hn x (List.mem_append_left _ hx), rfl⟩

/-- What ignores events of the kind is as it was. -/
theorem ignored {F : History → β} (ha : Adds P past h)
    (hF : ∀ x h, P x.event → F (x :: h) = F h) : F h = F past := by
  obtain ⟨new, hn, rfl⟩ := ha
  induction new with
  | nil => rfl
  | cons x new ih =>
    rw [List.cons_append, hF x _ (hn x (by simp))]
    exact ih fun y hy => hn y (by simp [hy])

theorem log {f : Event → List α} (ha : Adds P past h) (hf : ∀ e, P e → f e = []) :
    h.log f = past.log f :=
  ha.ignored fun x h hx => by simp [hf x.event hx]

/-- The requests on record are those of the past if no call has begun since. -/
theorem requestOf_eq {n : Nat} (ha : Adds (fun e => ∀ m r, e ≠ .invoked m r) past h) :
    h.requestOf n = past.requestOf n := by
  refine ha.ignored ?_
  rintro ⟨time, e⟩ h he
  cases e <;> first | rfl | exact absurd rfl (he _ _)

/-- Whatever was recorded on top of the past is of the kind. -/
theorem of_suffix {x : Entry} (ha : Adds P past h) (hs : x :: g <:+ h) (hp : past <:+ g) :
    P x.event := by
  obtain ⟨hadded, -⟩ := ha.split (hp.trans (List.suffix_cons x g)) hs
  obtain ⟨-, new, hnew, hx⟩ := hadded.split hp (List.suffix_cons x g)
  rw [← List.singleton_append] at hx
  exact hnew x (List.append_cancel_right hx ▸ List.mem_singleton_self x)

/-- Events of a kind that is allowed on top of the past can be added. -/
theorem each_between {R : Event → History → Prop} (ha : Adds P past h)
    (hR : ∀ e g, P e → past <:+ g → g <:+ h → R e g) (he : Each R past) : Each R h := by
  obtain ⟨new, hn, rfl⟩ := ha
  induction new with
  | nil => exact he
  | cons x new ih =>
    refine ⟨hR _ _ (hn x (by simp)) ⟨new, rfl⟩ (List.suffix_cons _ _), ?_⟩
    refine ih (fun y hy => hn y (by simp [hy])) fun e g hP hp hg => ?_
    exact hR e g hP hp (hg.trans (List.suffix_cons _ _))

/-- Events of a kind that is always allowed can be added. -/
theorem each {R : Event → History → Prop} (ha : Adds P past h) (hR : ∀ e h, P e → R e h)
    (he : Each R past) : Each R h :=
  ha.each_between (fun e g hP _ _ => hR e g hP) he

end Adds

theorem Each.of_adds {P : Event → Prop} {R : Event → History → Prop} {past h : History}
    (he : Each R h) (ha : Adds P past h) : Each R past := by
  obtain ⟨new, -, rfl⟩ := ha
  induction new with
  | nil => exact he
  | cons x new ih => exact ih he.2

instance decidableEach {P : Event → History → Prop} [∀ e past, Decidable (P e past)] :
    (h : History) → Decidable (Each P h)
  | [] => .isTrue trivial
  | x :: h => @instDecidableAnd (P x.event h) (Each P h) _ (decidableEach h)

/-- Whether a caller gives up an announcement or a check. -/
def withdraws : Event → History → Bool
  | .cancelled n, past =>
    requestOf n past = some .finish || requestOf n past = some .checkActive
  | _, _ => false

/-- No caller gives up an announcement or a check before it returns. -/
def Patient (h : History) : Prop := Each (fun e past => withdraws e past = false) h

instance (h : History) : Decidable (Patient h) := inferInstanceAs (Decidable (Each _ h))

/-- Whether a caller gives up a check. -/
def deserts : Event → History → Bool
  | .cancelled n, past => requestOf n past = some .checkActive
  | _, _ => false

/-- No caller gives up a check before it returns. -/
def Persistent (h : History) : Prop := Each (fun e past => deserts e past = false) h

instance (h : History) : Decidable (Persistent h) := inferInstanceAs (Decidable (Each _ h))

theorem Patient.persistent {h : History} (hp : Patient h) : Persistent h := by
  refine hp.mono fun e past he => ?_
  cases e <;> simp_all [withdraws, deserts]

end History

/-- The part of one worker in a log of many. -/
def share {α : Type} (i : Nat) (l : List (Nat × α)) : List α :=
  l.filterMap fun x => if x.1 = i then some x.2 else none

section Share

variable {α : Type} {i j : Nat}

@[simp] theorem share_nil : share i ([] : List (Nat × α)) = [] := rfl

@[simp] theorem share_append (l m : List (Nat × α)) :
    share i (l ++ m) = share i l ++ share i m := by
  simp [share]

@[simp] theorem share_self (a : α) : share i [(i, a)] = [a] := by simp [share]

theorem share_of_ne (h : j ≠ i) (a : α) : share i [(j, a)] = [] := by simp [share, h]

theorem mem_share {l : List (Nat × α)} {a : α} : a ∈ share i l ↔ (i, a) ∈ l := by
  simp only [share, List.mem_filterMap]
  constructor
  · rintro ⟨⟨j, b⟩, hm, hb⟩
    split at hb
    · next he => obtain rfl := he; cases hb; exact hm
    · cases hb
  · intro h
    exact ⟨(i, a), h, by simp⟩

theorem count_share [DecidableEq α] (l : List (Nat × α)) (a : α) :
    (share i l).count a = l.count (i, a) := by
  induction l with
  | nil => rfl
  | cons x l ih =>
    obtain ⟨j, b⟩ := x
    by_cases h : j = i
    · subst h
      by_cases hb : b = a
      · simpa [share, hb] using ih
      · simpa [share, hb] using ih
    · simpa [share, h] using ih

theorem share_map {β : Type} (f : α → β) (l : List (Nat × α)) :
    share i (l.map fun x => (x.1, f x.2)) = (share i l).map f := by
  induction l with
  | nil => rfl
  | cons x l ih =>
    obtain ⟨j, a⟩ := x
    by_cases h : j = i
    · simpa [share, h] using ih
    · simpa [share, h] using ih

/-- Logs with the same share for each worker are permutations of each other. -/
theorem perm_of_share {l m : List (Nat × α)} (h : ∀ i, share i l = share i m) : l.Perm m := by
  classical
  rw [List.perm_iff_count]
  rintro ⟨i, a⟩
  rw [← count_share, ← count_share, h i]

end Share

end DocumentPipeline
