import DocumentPipeline.Settings

/-! # Faults

What a processing client, an emitter and the pipeline itself can report, with
the wording of each.
-/
namespace DocumentPipeline

/-- The two worker pools. -/
inductive Role where
  | fetch
  | emit
  deriving DecidableEq, Inhabited

def Role.label : Role → String
  | fetch => "fetch"
  | emit => "emit"

/-- Raised by a processing client or by what creates it. -/
inductive ClientError where
  /-- The transport failed while one item was processed. -/
  | io (reason : String)
  /-- The client could not be created. -/
  | startup (reason : String)
  /-- The client is unusable; its worker stops. -/
  | fatal (reason : String)
  deriving DecidableEq, Inhabited

namespace ClientError

def message : ClientError → String
  | io reason => "I/O error: " ++ reason
  | startup reason => "Failed to start processing client: " ++ reason
  | fatal reason => "Processing client failed: " ++ reason

/-- Whether the failure is confined to the item being processed. -/
def isPerItem : ClientError → Bool
  | io _ => true
  | _ => false

end ClientError

/-- Raised by an emitter. -/
inductive EmitError where
  /-- Delivering one payload failed. -/
  | failed (key reason : String)
  /-- Writing failed. -/
  | io (reason : String)
  /-- The destination is gone for good; the emit worker stops. -/
  | unrecoverable (reason : String)
  deriving DecidableEq, Inhabited

namespace EmitError

def message : EmitError → String
  | failed key reason => "Emit failed for " ++ key ++ ": " ++ reason
  | io reason => "I/O error: " ++ reason
  | unrecoverable reason => "Emitter is unavailable: " ++ reason

def isUnrecoverable : EmitError → Bool
  | unrecoverable _ => true
  | _ => false

end EmitError

/-- What a bounded hand-off carries. -/
inductive Cargo where
  | emitData
  | fetchStop
  | emitStop
  deriving DecidableEq, Inhabited

def Cargo.label : Cargo → String
  | emitData => "emit data"
  | fetchStop => "fetch stop signal"
  | emitStop => "emit stop signal"

/-- Raised by a pipeline operation. -/
inductive PipelineError where
  /-- The workers have not been launched. -/
  | notInitialized
  /-- A submission after the end of work was announced. -/
  | shuttingDown
  /-- The batch could never fit into the intake queue. -/
  | batchTooLarge (batchSize queueSize : Nat)
  /-- A hand-off reached its ceiling; the consumer is presumed stuck. -/
  | stalled (what : String) (waitedMs : Nat)
  /-- A worker exited with an error or panicked. -/
  | workerFailed (role reason : String)
  | config (error : ConfigError)
  /-- A client error that its worker could not contain. -/
  | client (error : ClientError)
  | emit (error : EmitError)
  deriving DecidableEq, Inhabited

def PipelineError.message : PipelineError → String
  | notInitialized => "Pipeline has not been started"
  | shuttingDown => "Pipeline is shutting down; no more work is accepted"
  | batchTooLarge batchSize queueSize =>
    "Batch of " ++ toString batchSize ++ " tuples is larger than the queue size (" ++
      toString queueSize ++ ")"
  | stalled what waitedMs =>
    "Couldn't offer " ++ what ++ " within " ++ toString waitedMs ++ " ms"
  | workerFailed role reason => role ++ " worker failed: " ++ reason
  | config e => "Invalid configuration: " ++ e.message
  | client e => "Processing client error: " ++ e.message
  | emit e => "Emitter error: " ++ e.message

/-- Build a pipeline's settings into a pipeline error if they do not validate. -/
def Settings.check (s : Settings) : Except PipelineError Unit :=
  s.validate.mapError .config

end DocumentPipeline
