import DocumentPipeline.Fault
import DocumentPipeline.Time.Instant

/-! # Status of a pipeline

A point-in-time view: the lifecycle phase, the room in both queues and the two
worker pools.
-/
namespace DocumentPipeline

/-- Lifecycle phase, in the order in which a pipeline goes through them. -/
inductive Phase where
  /-- Built; the workers are not launched yet. -/
  | notStarted
  /-- Both pools active, accepting work. -/
  | running
  /-- No more work accepted; the workers finish the backlog. -/
  | draining
  /-- Every worker has exited. -/
  | stopped
  /-- The workers were aborted. -/
  | closed
  deriving DecidableEq, Inhabited

namespace Phase

def label : Phase → String
  | notStarted => "not_started"
  | running => "running"
  | draining => "draining"
  | stopped => "stopped"
  | closed => "closed"

/-- All phases in the order of the lifecycle. -/
def all : List Phase := [notStarted, running, draining, stopped, closed]

/-- Position in the lifecycle. -/
def rank : Phase → Nat
  | notStarted => 0
  | running => 1
  | draining => 2
  | stopped => 3
  | closed => 4

theorem mem_all (p : Phase) : p ∈ all := by cases p <;> decide

end Phase

/-- Status of one worker pool. -/
structure PoolStatus where
  name : String
  /-- Number of workers in the pool. -/
  size : UInt64
  /-- Workers that have exited cleanly. -/
  finished : UInt64
  deriving DecidableEq, Inhabited

/-- Point-in-time view of a pipeline. -/
structure PipelineStatus where
  phase : Phase
  /-- When the workers were launched. -/
  startedAt : Option Instant
  /-- Capacity of the intake queue. -/
  queueSize : UInt64
  /-- Free intake slots. -/
  remainingCapacity : UInt64
  /-- Free outtake slots. -/
  emitQueueRemaining : UInt64
  fetchPool : PoolStatus
  emitPool : PoolStatus
  /-- Items attempted so far, successful or not. -/
  totalProcessed : UInt64
  deriving DecidableEq, Inhabited

end DocumentPipeline
