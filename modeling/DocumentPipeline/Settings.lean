/-! # Settings of the pipeline

Sizes and counts are 64-bit words. The hand-off ceiling is kept in whole
milliseconds; a longer request is cut to the low 64 bits of its milliseconds.
-/
namespace DocumentPipeline

/-- A span of time with nanosecond precision. -/
structure Span where
  seconds : UInt64
  nanos : Nat
  nanos_lt : nanos < 1000000000 := by decide
  deriving DecidableEq

namespace Span

/-- The longest span there is. -/
def longest : Span := { seconds := 18446744073709551615, nanos := 999999999 }

/-- Whole milliseconds of a span. -/
def millis (s : Span) : Nat := s.seconds.toNat * 1000 + s.nanos / 1000000

/-- Length in nanoseconds. -/
def toNanos (s : Span) : Nat := s.seconds.toNat * 1000000000 + s.nanos

/-- The span of a number of milliseconds. -/
def ofMillis (ms : UInt64) : Span :=
  ⟨ms / 1000, (ms % 1000).toNat * 1000000, by
    have : (ms % 1000).toNat < 1000 := by
      have := UInt64.toNat_mod ms 1000
      have : ms.toNat % 1000 < 1000 := Nat.mod_lt _ (by decide)
      simp_all
    omega⟩

/-- A span whose part below the second may exceed a second. -/
def ofParts (seconds : UInt64) (nanos : Nat) : Span :=
  ⟨seconds + (nanos / 1000000000).toUInt64, nanos % 1000000000, Nat.mod_lt _ (by decide)⟩

end Span

/-- What can go wrong before a pipeline is built. -/
inductive ConfigError where
  | fileNotFound (path : String)
  | parse (reason : String)
  | validation (reason : String)
  deriving DecidableEq, Inhabited

def ConfigError.message : ConfigError → String
  | fileNotFound path => "Configuration file not found: " ++ path
  | parse reason => "Failed to parse configuration: " ++ reason
  | validation reason => "Configuration validation failed: " ++ reason

/-- Read once when the pipeline is built; never changed afterwards. -/
structure Settings where
  /-- Items that may wait for a fetch worker. -/
  queueSize : UInt64 := 10000
  /-- Fetch workers, each owning one processing client. -/
  numClients : UInt64 := 4
  /-- Emit workers. -/
  numEmitters : UInt64 := 1
  /-- Ceiling of every hand-off, in milliseconds. -/
  maxOfferWaitMs : UInt64 := 120000
  deriving DecidableEq, Inhabited

namespace Settings

def withQueueSize (s : Settings) (n : UInt64) : Settings := { s with queueSize := n }

def withNumClients (s : Settings) (n : UInt64) : Settings := { s with numClients := n }

def withNumEmitters (s : Settings) (n : UInt64) : Settings := { s with numEmitters := n }

/-- Sets the hand-off ceiling to the low 64 bits of the whole milliseconds asked for. -/
def withMaxOfferWait (s : Settings) (wait : Span) : Settings :=
  { s with maxOfferWaitMs := wait.millis.toUInt64 }

/-- The hand-off ceiling as a span. -/
def maxOfferWait (s : Settings) : Span := .ofMillis s.maxOfferWaitMs

/-- Workers of both pools together. -/
def totalWorkers (s : Settings) : Nat := s.numClients.toNat + s.numEmitters.toNat

/-- A pipeline needs room for an item, a worker in each pool and a positive ceiling. -/
def validate (s : Settings) : Except ConfigError Unit :=
  if s.queueSize = 0 then .error (.validation "processor.queue_size cannot be 0")
  else if s.numClients = 0 then .error (.validation "processor.num_clients cannot be 0")
  else if s.numEmitters = 0 then .error (.validation "processor.num_emitters cannot be 0")
  else if s.maxOfferWaitMs = 0 then .error (.validation "processor.max_offer_wait_ms cannot be 0")
  else .ok ()

theorem validate_eq_ok_iff (s : Settings) : s.validate = .ok () ↔
    s.queueSize ≠ 0 ∧ s.numClients ≠ 0 ∧ s.numEmitters ≠ 0 ∧ s.maxOfferWaitMs ≠ 0 := by
  by_cases hq : s.queueSize = 0 <;> by_cases hc : s.numClients = 0 <;>
    by_cases he : s.numEmitters = 0 <;> by_cases hw : s.maxOfferWaitMs = 0 <;>
    simp [validate, hq, hc, he, hw]

end Settings

/-- The whole configuration: one section for the pipeline. -/
structure Config where
  processor : Settings := {}
  deriving DecidableEq, Inhabited

def Config.validate (c : Config) : Except ConfigError Unit := c.processor.validate

end DocumentPipeline
