import DocumentPipeline.Fault

/-! # Locks and bounded queues

Both are served first come, first served. The head of a lock's line holds the
lock. A sender joins the line of a queue and owns a slot as soon as the line
before it fits beside the messages; the slot stays its own until it pushes or
leaves.
-/
namespace DocumentPipeline

/-- Who waits, holds and sends: a worker of one of the pools, or a caller's operation. -/
inductive Task where
  | fetcher (i : Nat)
  | emitter (j : Nat)
  | call (n : Nat)
  deriving DecidableEq, Inhabited

namespace Task

/-- The pool a worker belongs to. -/
def role? : Task → Option Role
  | fetcher _ => some .fetch
  | emitter _ => some .emit
  | call _ => none

end Task

/-- A lock with the line of those who asked for it. -/
structure Lock where
  line : List Task := []
  deriving DecidableEq, Inhabited

namespace Lock

def isFree (l : Lock) : Bool := l.line.isEmpty

/-- Whether a task holds the lock. -/
def heldBy (l : Lock) (t : Task) : Bool := l.line.head? = some t

/-- Joins the line; on a free lock that takes it. -/
def request (l : Lock) (t : Task) : Lock := ⟨l.line ++ [t]⟩

/-- Gives the lock up or leaves its line. -/
def release (l : Lock) (t : Task) : Lock := ⟨l.line.erase t⟩

@[simp] theorem line_request (l : Lock) (t : Task) : (l.request t).line = l.line ++ [t] := rfl

@[simp] theorem line_release (l : Lock) (t : Task) : (l.release t).line = l.line.erase t := rfl

end Lock

/-- A queue carries data, and signals that each tell one worker to exit. -/
inductive Message (α : Type) where
  | data (a : α)
  | stop
  deriving DecidableEq, Inhabited

/-- A bounded queue with the line of its senders. -/
structure Queue (α : Type) where
  capacity : Nat
  messages : List (Message α) := []
  senders : List Task := []
  deriving Inhabited

namespace Queue

variable {α : Type}

/-- Slots neither filled nor owned by a sender. -/
def free (q : Queue α) : Nat := q.capacity - (q.messages.length + q.senders.length)

/-- Whether a sender owns a slot. -/
def hasSlot (q : Queue α) (t : Task) : Bool :=
  t ∈ q.senders && q.messages.length + q.senders.idxOf t < q.capacity

/-- Joins the line of senders. -/
def join (q : Queue α) (t : Task) : Queue α := { q with senders := q.senders ++ [t] }

/-- Leaves the line of senders, giving up a slot if one is owned. -/
def leave (q : Queue α) (t : Task) : Queue α := { q with senders := q.senders.erase t }

/-- Fills the slot of a sender. -/
def push (q : Queue α) (t : Task) (m : Message α) : Queue α :=
  { q with messages := q.messages ++ [m], senders := q.senders.erase t }

/-- Reserves several slots at once and fills them, if they are free. -/
def pushAll? (q : Queue α) (ms : List (Message α)) : Option (Queue α) :=
  if ms.length ≤ q.free then some { q with messages := q.messages ++ ms } else none

/-- Takes the oldest message. -/
def take? (q : Queue α) : Option (Message α × Queue α) :=
  match q.messages with
  | [] => none
  | m :: ms => some (m, { q with messages := ms })

@[simp] theorem messages_join (q : Queue α) (t : Task) : (q.join t).messages = q.messages := rfl

@[simp] theorem messages_leave (q : Queue α) (t : Task) : (q.leave t).messages = q.messages := rfl

@[simp] theorem messages_push (q : Queue α) (t : Task) (m : Message α) :
    (q.push t m).messages = q.messages ++ [m] := rfl

theorem pushAll?_eq_some_iff {q q' : Queue α} {ms : List (Message α)} :
    q.pushAll? ms = some q' ↔
      ms.length ≤ q.free ∧ q' = { q with messages := q.messages ++ ms } := by
  simp [pushAll?, eq_comm]

end Queue

end DocumentPipeline
