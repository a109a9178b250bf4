import DocumentPipeline.WorkItem

/-! # Outcomes of processing one item

Only the two successes carry a payload, so a payload exists exactly when the
status is a success; only the clean success is ever emitted.
-/
namespace DocumentPipeline

/-- Category of an outcome. -/
inductive Status where
  | parseSuccess
  | parseSuccessWithException
  | parseException
  | fetchException
  | timeout
  | outOfMemory
  | unspecifiedCrash
  deriving DecidableEq, Inhabited

namespace Status

/-- Label used in logs, metrics and texts. -/
def label : Status → String
  | parseSuccess => "parse_success"
  | parseSuccessWithException => "parse_success_with_exception"
  | parseException => "parse_exception"
  | fetchException => "fetch_exception"
  | timeout => "timeout"
  | outOfMemory => "out_of_memory"
  | unspecifiedCrash => "unspecified_crash"

/-- All categories, in the order in which they are listed to a reader. -/
def all : List Status :=
  [parseSuccess, parseSuccessWithException, parseException, fetchException, timeout,
    outOfMemory, unspecifiedCrash]

/-- Whether content was extracted, with or without a complaint. -/
def isSuccess : Status → Bool
  | parseSuccess | parseSuccessWithException => true
  | _ => false

theorem mem_all (s : Status) : s ∈ all := by cases s <;> decide

end Status

/-- Result of processing one item. -/
inductive Outcome where
  /-- Parsed cleanly. -/
  | parsed (payload : Payload)
  /-- Parsed, but something that is not fatal went wrong. -/
  | parsedWithException (payload : Payload) (message : String)
  /-- The parser failed on the fetched bytes. -/
  | parseFailed (cause : String)
  /-- The resource could not be fetched. -/
  | fetchFailed (cause : String)
  /-- Processing exceeded the client's time limit. -/
  | timedOut
  /-- The client ran out of memory. -/
  | outOfMemory
  /-- The client died or its transport broke. -/
  | crashed
  deriving DecidableEq, Inhabited

namespace Outcome

def status : Outcome → Status
  | parsed _ => .parseSuccess
  | parsedWithException _ _ => .parseSuccessWithException
  | parseFailed _ => .parseException
  | fetchFailed _ => .fetchException
  | timedOut => .timeout
  | outOfMemory => .outOfMemory
  | crashed => .unspecifiedCrash

def isSuccess (o : Outcome) : Bool := o.status.isSuccess

/-- The extracted content, present exactly on success. -/
def payload? : Outcome → Option Payload
  | parsed p | parsedWithException p _ => some p
  | _ => none

/-- The payload to hand to the emitter: that of a clean parse. -/
def emittable? : Outcome → Option Payload
  | parsed p => some p
  | _ => none

/-- The complaint or cause, where there is one. -/
def message? : Outcome → Option String
  | parsedWithException _ m | parseFailed m | fetchFailed m => some m
  | _ => none

theorem emittable?_eq_some_iff {o : Outcome} {p : Payload} :
    o.emittable? = some p ↔ o = .parsed p := by cases o <;> simp [emittable?]

end Outcome

end DocumentPipeline
