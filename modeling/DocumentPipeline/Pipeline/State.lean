import DocumentPipeline.Outcome
import DocumentPipeline.Pipeline.Queue
import DocumentPipeline.Pipeline.Status

/-! # State of a pipeline

A pipeline is what its workers and its pending calls share: two bounded queues,
four locks, a few flags and the tracker of the workers that ended. Every worker
and every call stands at a stage; between two stages it can be suspended, and any
other may take a step. The history records what happened, latest first.
-/
namespace DocumentPipeline

/-- Capacity of the outtake queue between the two pools. -/
def emitQueueSize : Nat := 100

/-- How often a batch offer looks again for room, in milliseconds. -/
def offerPollInterval : Nat := 100

/-- How long a fetch worker waits at an empty intake queue before it looks around, in
milliseconds. -/
def fetchPollTimeout : Nat := 1000

/-- A wait asked for by a caller. -/
inductive Wait where
  | millis (n : Nat)
  /-- Too long to be added to the clock. -/
  | endless
  deriving DecidableEq, Inhabited

namespace Wait

/-- Thirty years, which stand in for an endless timeout. -/
def farFuture : Nat := 86400 * 365 * 30 * 1000

/-- When a timeout that starts now ends. -/
def timeout (w : Wait) (now : Nat) : Nat :=
  match w with
  | millis n => now + n
  | endless => now + farFuture

/-- The deadline of a wait that starts now, if there is one. -/
def deadline? (w : Wait) (now : Nat) : Option Nat :=
  match w with
  | millis n => some (now + n)
  | endless => none

end Wait

/-- What a caller asks of a pipeline. -/
inductive Request where
  | start
  | offer (item : WorkItem) (wait : Wait)
  | offerBatch (items : List WorkItem) (wait : Wait)
  | finish
  | checkActive
  | status
  deriving DecidableEq, Inhabited

/-- What a caller gets back. -/
inductive Reply where
  | started
  /-- Whether the items were admitted. -/
  | offered (result : Except PipelineError Bool)
  | finished (result : Except PipelineError Unit)
  /-- Whether a worker is still running. -/
  | active (result : Except PipelineError Bool)
  | status (status : PipelineStatus)
  deriving Inhabited

/-- How a collaborator's call ends. -/
inductive Return (ε α : Type) where
  | value (a : α)
  | error (e : ε)
  | panic (message : String)
  deriving DecidableEq, Inhabited

/-- How a worker ends. -/
inductive Ending where
  | finished
  | failed (error : PipelineError)
  | panicked (message : String)
  | aborted
  deriving DecidableEq, Inhabited

/-- The first failure a poll has seen, kept for every later poll. -/
inductive Failure where
  | worker (role reason : String)
  | stalled (what : String) (waitedMs : Nat)
  deriving DecidableEq, Inhabited

def Failure.error : Failure → PipelineError
  | worker role reason => .workerFailed role reason
  | stalled what waitedMs => .stalled what waitedMs

/-- The injection of emit stop signals: how many are missing and until when the next one
waits for its slot. -/
structure Injection where
  remaining : Nat
  deadline : Nat
  deriving DecidableEq, Inhabited

/-- Where a fetch worker stands. -/
inductive FetchStage where
  | launched
  /-- Waits for its client to be created. -/
  | creating
  /-- In line for the intake lock. -/
  | queuing
  /-- Holds the intake lock and waits for a message. -/
  | receiving (deadline : Nat)
  /-- Waits for its client to process an item. -/
  | processing (item : WorkItem) (since : Nat)
  /-- In line for a slot of the outtake queue. -/
  | handing (item : WorkItem) (payload : Payload) (since deadline : Nat)
  /-- Inside a completion poll, with the tracker's lock. -/
  | injecting (i : Injection)
  | exited
  deriving DecidableEq, Inhabited

/-- Whether the worker owns a client. -/
def FetchStage.hasClient : FetchStage → Bool
  | launched | creating | exited => false
  | _ => true

structure Fetcher where
  stage : FetchStage := .launched
  abortRequested : Bool := false
  deriving DecidableEq, Inhabited

/-- Where an emit worker stands. -/
inductive EmitStage where
  | launched
  /-- In line for the outtake lock. -/
  | queuing
  /-- Holds the outtake lock and waits for a message. -/
  | receiving
  /-- Waits for the emitter. -/
  | emitting (payload : Payload)
  | exited
  deriving DecidableEq, Inhabited

structure EmitWorker where
  stage : EmitStage := .launched
  abortRequested : Bool := false
  deriving DecidableEq, Inhabited

/-- Where a call stands. -/
inductive CallStage where
  /-- In line for the tracker, to launch the workers. -/
  | starting
  /-- Holds the tracker; so many workers are launched. -/
  | launching (count : Nat)
  /-- In line for the producer lock. -/
  | offering (item : WorkItem) (wait : Wait)
  /-- In line for the tracker, to poll before the item is sent. -/
  | offerPolling (item : WorkItem) (wait : Wait)
  | offerInjecting (item : WorkItem) (wait : Wait) (i : Injection)
  /-- In line for a slot of the intake queue. -/
  | sending (item : WorkItem) (deadline : Nat)
  /-- In line for the producer lock. -/
  | batching (items : List WorkItem) (wait : Wait)
  /-- Pauses before it looks for room again. -/
  | pausing (items : List WorkItem) (wake : Nat) (deadline : Option Nat)
  /-- In line for the producer lock. -/
  | finishing
  /-- In line for a slot of the intake queue, with so many stop signals left. -/
  | stopping (remaining deadline : Nat)
  /-- In line for the tracker, to latch a stall. -/
  | stallingOut
  /-- In line for the tracker. -/
  | checking
  | checkInjecting (i : Injection)
  /-- In line for the tracker. -/
  | reading
  deriving DecidableEq, Inhabited

/-- Whether the call waits at this stage, so that its caller may give it up. -/
def CallStage.isSuspended : CallStage → Bool
  | launching _ => false
  | _ => true

/-- Everything that is recorded. -/
inductive Event where
  | invoked (call : Nat) (request : Request)
  | replied (call : Nat) (reply : Reply)
  | cancelled (call : Nat)
  | closed
  | dropped
  | launched (task : Task)
  | clientCreated (i : Nat)
  | clientReleased (i : Nat)
  /-- The items of a submission entered the intake queue. -/
  | admitted (call : Nat) (items : List WorkItem)
  /-- A batch looked for room and found so many free slots. -/
  | tested (call : Nat) (free : Nat)
  /-- A stop signal entered the queue of a pool. -/
  | stopQueued (role : Role)
  | received (i : Nat) (message : Message WorkItem)
  | processBegan (i : Nat) (item : WorkItem)
  | processEnded (i : Nat) (item : WorkItem) (result : Return ClientError Outcome)
  /-- A payload entered the outtake queue. -/
  | payloadQueued (i : Nat) (payload : Payload)
  | reported (i : Nat) (item : WorkItem) (outcome : Outcome) (elapsedMs : Nat)
  | taken (j : Nat) (message : Message Payload)
  | emitBegan (j : Nat) (payload : Payload)
  | emitEnded (j : Nat) (payload : Payload) (result : Return EmitError Unit)
  /-- A hand-off began to wait for a slot. -/
  | handoffBegan (task : Task) (cargo : Cargo)
  /-- A hand-off gave up at its ceiling. -/
  | handoffStalled (task : Task) (cargo : Cargo)
  | exited (task : Task) (ending : Ending)
  /-- A poll took notice of an ended worker. -/
  | collected (task : Task) (ending : Ending)
  | latched (failure : Failure)
  deriving Inhabited

/-- An event with its time in milliseconds. -/
structure Entry where
  time : Nat
  event : Event
  deriving Inhabited

/-- What has been recorded, latest first. -/
abbrev History := List Entry

/-- What is known about the workers, guarded by one lock. -/
structure Tracker where
  /-- Pool of each worker launched. -/
  roles : List (Task × Role) := []
  /-- Workers that ended and were not collected, oldest first. -/
  exits : List (Task × Ending) := []
  startedAt : Option Nat := none
  /-- Fetch workers collected after a clean exit. -/
  fetchFinished : Nat := 0
  /-- Emit workers collected after a clean exit. -/
  emitFinished : Nat := 0
  /-- All workers collected, aborted and failed ones included. -/
  finished : Nat := 0
  emitStopSent : Bool := false
  failure : Option Failure := none
  deriving Inhabited

structure Pipeline where
  settings : Settings
  /-- What the wall clock shows at time 0. -/
  origin : Instant
  /-- Milliseconds since the pipeline was built. -/
  now : Nat := 0
  started : Bool := false
  shuttingDown : Bool := false
  /-- Some call has taken on the sending of the fetch stop signals. -/
  stopsClaimed : Bool := false
  closed : Bool := false
  intake : Queue WorkItem
  outtake : Queue Payload
  /-- Serialises the submissions. -/
  producerLock : Lock := {}
  trackerLock : Lock := {}
  intakeLock : Lock := {}
  outtakeLock : Lock := {}
  tracker : Tracker := {}
  fetchers : List Fetcher := []
  emitters : List EmitWorker := []
  /-- The workers that closing aborts. -/
  abortable : List Task := []
  /-- The calls that have not returned. -/
  calls : List (Nat × CallStage) := []
  totalProcessed : Nat := 0
  history : History := []
  deriving Inhabited

/-- What comes of building a pipeline. -/
inductive Construction where
  | built (p : Pipeline)
  | rejected (e : PipelineError)
  /-- The intake queue is larger than any queue can be. -/
  | panicked
  deriving Inhabited

namespace Pipeline

/-- The largest capacity of a queue, 2^61 - 1. -/
def maxCapacity : Nat := 2305843009213693951

/-- Builds a pipeline with empty queues and no workers, unless its settings are invalid. -/
def build (settings : Settings) (origin : Instant) : Construction :=
  match settings.check with
  | .error e => .rejected e
  | .ok () =>
    if maxCapacity < settings.queueSize.toNat then .panicked
    else
      .built
        { settings, origin
          intake := { capacity := settings.queueSize.toNat }
          outtake := { capacity := emitQueueSize } }

/-- Free intake slots; other producers race for them. -/
def remainingCapacity (p : Pipeline) : Nat := p.intake.free

/-- Free outtake slots. -/
def emitQueueRemaining (p : Pipeline) : Nat := p.outtake.free

/-- What has happened, oldest first. -/
def events (p : Pipeline) : List Event := p.history.reverse.map (·.event)

/-- The phase of the lifecycle. -/
def phase (p : Pipeline) : Phase :=
  if !p.started then .notStarted
  else if p.closed then .closed
  else if p.tracker.finished = p.settings.totalWorkers then .stopped
  else if p.shuttingDown then .draining
  else .running

/-- The status shown to callers. -/
def statusView (p : Pipeline) : PipelineStatus where
  phase := p.phase
  startedAt := p.tracker.startedAt.map p.origin.addMillis
  queueSize := p.settings.queueSize
  remainingCapacity := p.remainingCapacity.toUInt64
  emitQueueRemaining := p.emitQueueRemaining.toUInt64
  fetchPool := ⟨Role.fetch.label, p.settings.numClients, p.tracker.fetchFinished.toUInt64⟩
  emitPool := ⟨Role.emit.label, p.settings.numEmitters, p.tracker.emitFinished.toUInt64⟩
  totalProcessed := p.totalProcessed.toUInt64

/-- The hand-off ceiling in milliseconds. -/
def ceiling (p : Pipeline) : Nat := p.settings.maxOfferWaitMs.toNat

/-- Adds an event to the history. -/
def record (p : Pipeline) (e : Event) : Pipeline :=
  { p with history := ⟨p.now, e⟩ :: p.history }

/-- Takes a task out of every line it stands in. -/
def release (p : Pipeline) (t : Task) : Pipeline :=
  { p with
    producerLock := p.producerLock.release t
    trackerLock := p.trackerLock.release t
    intakeLock := p.intakeLock.release t
    outtakeLock := p.outtakeLock.release t
    intake := p.intake.leave t
    outtake := p.outtake.leave t }

def setFetcher (p : Pipeline) (i : Nat) (stage : FetchStage) : Pipeline :=
  { p with fetchers := p.fetchers.modify i fun w => { w with stage } }

def setEmitter (p : Pipeline) (j : Nat) (stage : EmitStage) : Pipeline :=
  { p with emitters := p.emitters.modify j fun w => { w with stage } }

/-- Moves a pending call to a stage. -/
def setCall (p : Pipeline) (n : Nat) (stage : CallStage) : Pipeline :=
  { p with calls := p.calls.map fun c => if c.1 = n then (n, stage) else c }

def requestProducer (p : Pipeline) (t : Task) : Pipeline :=
  { p with producerLock := p.producerLock.request t }

def requestTracker (p : Pipeline) (t : Task) : Pipeline :=
  { p with trackerLock := p.trackerLock.request t }

def releaseTracker (p : Pipeline) (t : Task) : Pipeline :=
  { p with trackerLock := p.trackerLock.release t }

def requestIntake (p : Pipeline) (t : Task) : Pipeline :=
  { p with intakeLock := p.intakeLock.request t }

def requestOuttake (p : Pipeline) (t : Task) : Pipeline :=
  { p with outtakeLock := p.outtakeLock.request t }

@[simp] theorem phase_of_not_started {p : Pipeline} (h : p.started = false) :
    p.phase = .notStarted := by simp [phase, h]

end Pipeline

end DocumentPipeline
