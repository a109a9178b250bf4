import DocumentPipeline.Outcome

/-! # Log records of outcomes

A success is logged as a debug record with the size of its payload, a failure as
an information record with its cause.
-/
namespace DocumentPipeline

inductive LogLevel where
  | debug
  | info
  deriving DecidableEq, Inhabited

def LogLevel.label : LogLevel → String
  | debug => "DEBUG"
  | info => "INFO"

/-- What a record says besides the item and its status. -/
inductive LogDetail where
  | payloadBytes (n : Nat)
  | cause (text : String)
  deriving DecidableEq, Inhabited

/-- One record of the log. -/
structure LogRecord where
  level : LogLevel
  message : String
  id : String
  fetchKey : String
  status : Status
  detail : LogDetail
  elapsedMs : UInt64
  deriving DecidableEq, Inhabited

/-- The record of an outcome. The elapsed time is cut to 64 bits of milliseconds. -/
def LogRecord.ofOutcome (item : WorkItem) (outcome : Outcome) (elapsedMs : Nat) : LogRecord :=
  let record (level : LogLevel) (message : String) (detail : LogDetail) : LogRecord :=
    { level, message, id := item.id, fetchKey := item.fetchKey.key, status := outcome.status,
      detail, elapsedMs := elapsedMs.toUInt64 }
  match outcome.payload? with
  | some p => record .debug "Tuple processed" (.payloadBytes p.byteSize)
  | none => record .info "Tuple failed" (.cause (outcome.message?.getD ""))

/-- The reporters that come with the library. -/
inductive Reporter where
  /-- Discards every report. -/
  | silent
  /-- Writes every report to the log. -/
  | logging
  deriving DecidableEq, Inhabited

/-- The records that a reporter writes for an outcome. -/
def Reporter.report (r : Reporter) (item : WorkItem) (outcome : Outcome) (elapsedMs : Nat) :
    List LogRecord :=
  match r with
  | silent => []
  | logging => [.ofOutcome item outcome elapsedMs]

end DocumentPipeline
