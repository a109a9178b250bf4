import DocumentPipeline.Pipeline.Completion

/-! # Steps of the workers

A fetch worker takes an item, has it processed, hands a clean payload on, reports
and looks around with a completion poll. An emit worker takes a payload and has
it delivered. Each step goes from one stage at which the worker may be suspended
to the next.

A worker that is asked to abort may be under way at that moment, and then it goes on
until it has to wait. So it can end aborted at every stage, but until it does it can take
the same steps as before.
-/
namespace DocumentPipeline

namespace Pipeline

/-- Lets a worker end: it frees what it holds and awaits collection. -/
def endWorker (p : Pipeline) (t : Task) (ending : Ending) : Pipeline :=
  let p := p.release t
  { p with tracker := { p.tracker with exits := p.tracker.exits ++ [(t, ending)] } }.record
    (.exited t ending)

/-- Lets a fetch worker end; a client it owns is released first. -/
def endFetcher (p : Pipeline) (i : Nat) (w : Fetcher) (ending : Ending) : Pipeline :=
  let p := if w.stage.hasClient then p.record (.clientReleased i) else p
  (p.setFetcher i .exited).endWorker (.fetcher i) ending

def endEmitter (p : Pipeline) (j : Nat) (ending : Ending) : Pipeline :=
  (p.setEmitter j .exited).endWorker (.emitter j) ending

/-- Joins the line for the next message of the intake queue. -/
def queueFetcher (p : Pipeline) (i : Nat) : Pipeline :=
  (p.setFetcher i .queuing).requestIntake (.fetcher i)

def queueEmitter (p : Pipeline) (j : Nat) : Pipeline :=
  (p.setEmitter j .queuing).requestOuttake (.emitter j)

/-- Goes on after a completion poll of a fetch worker. -/
def afterFetcherPoll (i : Nat) (w : Fetcher) : Pipeline × Verdict → Pipeline
  | (p, .failed e) => p.endFetcher i w (.failed e)
  | (p, .active _) => (p.releaseTracker (.fetcher i)).queueFetcher i
  | (p, .injecting inj) => p.setFetcher i (.injecting inj)

/-- Polls if nobody holds the tracker, and goes on. -/
def tryPoll (p : Pipeline) (i : Nat) (w : Fetcher) : Pipeline :=
  if p.trackerLock.isFree then
    let p := p.requestTracker (.fetcher i)
    afterFetcherPoll i w (p.poll (.fetcher i))
  else p.queueFetcher i

/-- Reports and counts an item, then looks around. -/
def finishItem (p : Pipeline) (i : Nat) (w : Fetcher) (item : WorkItem) (outcome : Outcome)
    (since : Nat) : Pipeline :=
  let p := p.record (.reported i item outcome (p.now - since))
  { p with totalProcessed := p.totalProcessed + 1 }.tryPoll i w

/-- Goes on with the outcome of an item: a clean payload waits for a slot first. -/
def acceptOutcome (p : Pipeline) (i : Nat) (w : Fetcher) (item : WorkItem) (outcome : Outcome)
    (since : Nat) : Pipeline :=
  match outcome.emittable? with
  | some payload =>
    let t := .fetcher i
    { p with outtake := p.outtake.join t }.record (.handoffBegan t .emitData)
      |>.setFetcher i (.handing item payload since (p.now + p.ceiling))
  | none => p.finishItem i w item outcome since

/-- Takes a message off the intake queue. -/
def acceptMessage (p : Pipeline) (i : Nat) (w : Fetcher) (m : Message WorkItem) : Pipeline :=
  let p := p.record (.received i m)
  let p := { p with intakeLock := p.intakeLock.release (.fetcher i) }
  match m with
  | .stop => p.endFetcher i w .finished
  | .data item => (p.setFetcher i (.processing item p.now)).record (.processBegan i item)

/-- A fetch worker that was asked to abort ends where it waits. -/
def abortFetcher? (p : Pipeline) (i : Nat) (w : Fetcher) : Option Pipeline :=
  if w.abortRequested ∧ w.stage ≠ .exited then some (p.endFetcher i w .aborted) else none

/-- The next step of a fetch worker, if it can take one by itself. -/
def stepFetcher? (p : Pipeline) (i : Nat) (w : Fetcher) : Option Pipeline :=
  let t := .fetcher i
  match w.stage with
  | .launched => some (p.setFetcher i .creating)
  | .queuing =>
    if p.intakeLock.heldBy t then some (p.setFetcher i (.receiving (p.now + fetchPollTimeout)))
    else none
  | .receiving deadline =>
    match p.intake.take? with
    | some (m, intake) => some ({ p with intake }.acceptMessage i w m)
    | none =>
      if deadline ≤ p.now then some ({ p with intakeLock := p.intakeLock.release t }.tryPoll i w)
      else none
  | .handing item payload since deadline =>
    if p.outtake.hasSlot t then
      let p := { p with outtake := p.outtake.push t (.data payload) }
      some ((p.record (.payloadQueued i payload)).finishItem i w item (.parsed payload) since)
    else if deadline ≤ p.now then
      let p := { p with outtake := p.outtake.leave t }.record (.handoffStalled t .emitData)
      some (p.endFetcher i w (.failed (.stalled Cargo.emitData.label p.ceiling)))
    else none
  | .injecting inj => (p.inject? t inj).map (afterFetcherPoll i w)
  | _ => none

/-- The client of a fetch worker has been created, or not. -/
def clientReturned? (p : Pipeline) (i : Nat) (w : Fetcher) (r : Return ClientError Unit) :
    Option Pipeline :=
  match w.stage with
  | .creating =>
    match r with
    | .value () => some ((p.record (.clientCreated i)).queueFetcher i)
    | .error e => some (p.endFetcher i w (.failed (.client e)))
    | .panic m => some (p.endFetcher i w (.panicked m))
  | _ => none

/-- The client of a fetch worker is done with its item. A failure confined to the item
counts as a crash of that item. -/
def processReturned? (p : Pipeline) (i : Nat) (w : Fetcher) (r : Return ClientError Outcome) :
    Option Pipeline :=
  match w.stage with
  | .processing item since =>
    let p := p.record (.processEnded i item r)
    match r with
    | .value outcome => some (p.acceptOutcome i w item outcome since)
    | .error e =>
      if e.isPerItem then some (p.acceptOutcome i w item .crashed since)
      else some (p.endFetcher i w (.failed (.client e)))
    | .panic m => some (p.endFetcher i w (.panicked m))
  | _ => none

/-- An emit worker that was asked to abort ends where it waits. -/
def abortEmitter? (p : Pipeline) (j : Nat) (w : EmitWorker) : Option Pipeline :=
  if w.abortRequested ∧ w.stage ≠ .exited then some (p.endEmitter j .aborted) else none

/-- The next step of an emit worker, if it can take one by itself. -/
def stepEmitter? (p : Pipeline) (j : Nat) (w : EmitWorker) : Option Pipeline :=
  let t := .emitter j
  match w.stage with
  | .launched => some (p.queueEmitter j)
  | .queuing => if p.outtakeLock.heldBy t then some (p.setEmitter j .receiving) else none
  | .receiving =>
    match p.outtake.take? with
    | some (m, outtake) =>
      let p := { p with outtake, outtakeLock := p.outtakeLock.release t }.record (.taken j m)
      match m with
      | .stop => some (p.endEmitter j .finished)
      | .data payload => some ((p.setEmitter j (.emitting payload)).record (.emitBegan j payload))
    | none => none
  | _ => none

/-- The emitter is done with a payload. Only a failure for good ends the worker. -/
def emitReturned? (p : Pipeline) (j : Nat) (w : EmitWorker) (r : Return EmitError Unit) :
    Option Pipeline :=
  match w.stage with
  | .emitting payload =>
    let p := p.record (.emitEnded j payload r)
    match r with
    | .value () => some (p.queueEmitter j)
    | .error e =>
      if e.isUnrecoverable then some (p.endEmitter j (.failed (.emit e)))
      else some (p.queueEmitter j)
    | .panic m => some (p.endEmitter j (.panicked m))
  | _ => none

end Pipeline

end DocumentPipeline
