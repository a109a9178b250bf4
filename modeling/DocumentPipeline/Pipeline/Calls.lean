import DocumentPipeline.Pipeline.Completion

/-! # Steps of the calls

A call runs at once up to the first place where it may have to wait, and from
there in steps. Submissions and the sending of the stop signals take the producer
lock in turn, so a whole batch and all stop signals enter the intake queue
unmixed.
-/
namespace DocumentPipeline

namespace Pipeline

/-- Why a submission is refused, if it is. -/
def refusal? (p : Pipeline) : Option PipelineError :=
  if !p.started then some .notInitialized
  else if p.shuttingDown then some .shuttingDown
  else none

/-- Ends a call: it frees what it holds and its caller gets the reply. -/
def reply (p : Pipeline) (n : Nat) (r : Reply) : Pipeline :=
  let p := p.release (.call n)
  { p with calls := p.calls.filter (·.1 ≠ n) }.record (.replied n r)

/-- Launches a worker. -/
def launch (p : Pipeline) (t : Task) (role : Role) : Pipeline :=
  let p := { p with tracker := { p.tracker with roles := p.tracker.roles ++ [(t, role)] } }
  let p :=
    match role with
    | .fetch => { p with fetchers := p.fetchers ++ [Fetcher.mk .launched false] }
    | .emit => { p with emitters := p.emitters ++ [EmitWorker.mk .launched false] }
  p.record (.launched t)

/-- The workers of both pools. -/
def allWorkers (p : Pipeline) : List Task :=
  (List.range p.settings.numClients.toNat).map .fetcher ++
    (List.range p.settings.numEmitters.toNat).map .emitter

/-- Launches the next worker, or opens the pipeline once all of them are launched. -/
def launchNext (p : Pipeline) (n count : Nat) : Pipeline :=
  let clients := p.settings.numClients.toNat
  if count < clients then
    (p.launch (.fetcher count) .fetch).setCall n (.launching (count + 1))
  else if count < p.settings.totalWorkers then
    (p.launch (.emitter (count - clients)) .emit).setCall n (.launching (count + 1))
  else
    let p :=
      { p with
        abortable := p.allWorkers
        tracker := { p.tracker with startedAt := some p.now }
        started := true }
    p.reply n .started

/-- Goes on with an offer after its poll. -/
def afterOfferPoll (n : Nat) (item : WorkItem) (wait : Wait) : Pipeline × Verdict → Pipeline
  | (p, .failed e) => p.reply n (.offered (.error e))
  | (p, .active _) =>
    let p := p.releaseTracker (.call n)
    { p with intake := p.intake.join (.call n) }.setCall n (.sending item (wait.timeout p.now))
  | (p, .injecting i) => p.setCall n (.offerInjecting item wait i)

/-- Goes on with a check after its poll. -/
def afterCheckPoll (n : Nat) : Pipeline × Verdict → Pipeline
  | (p, .failed e) => p.reply n (.active (.error e))
  | (p, .active running) => p.reply n (.active (.ok running))
  | (p, .injecting i) => p.setCall n (.checkInjecting i)

/-- Pauses a batch until its next look at the queue, unless its deadline has come. -/
def pauseBatch (p : Pipeline) (n : Nat) (items : List WorkItem) (deadline : Option Nat) :
    Pipeline :=
  match deadline with
  | none => p.setCall n (.pausing items (p.now + offerPollInterval) none)
  | some d =>
    if d ≤ p.now then p.reply n (.offered (.ok false))
    else p.setCall n (.pausing items (p.now + min offerPollInterval (d - p.now)) (some d))

/-- Looks for room for a whole batch; it is admitted if all of it fits. -/
def testBatch (p : Pipeline) (n : Nat) (items : List WorkItem) (deadline : Option Nat) :
    Pipeline :=
  let p := p.record (.tested n p.intake.free)
  if items.length ≤ p.intake.free then
    match p.intake.pushAll? (items.map .data) with
    | some intake => ({ p with intake }.record (.admitted n items)).reply n (.offered (.ok true))
    | none => p.pauseBatch n items deadline
  else p.pauseBatch n items deadline

/-- Joins the intake queue's senders with a stop signal. -/
def queueFetchStop (p : Pipeline) (n remaining : Nat) : Pipeline :=
  { p with intake := p.intake.join (.call n) }.record (.handoffBegan (.call n) .fetchStop)
    |>.setCall n (.stopping remaining (p.now + p.ceiling))

/-- Begins a call that waits at a stage, in line for a lock. -/
def addCall (p : Pipeline) (n : Nat) (stage : CallStage) : Pipeline :=
  { p with calls := p.calls ++ [(n, stage)] }

/-- Begins the announcement that no more work is coming. Only the first one sends the
stop signals. -/
def invokeFinish (p : Pipeline) (n : Nat) : Pipeline :=
  if !p.started then p.reply n (.finished (.error .notInitialized))
  else if p.closed then p.reply n (.finished (.error .shuttingDown))
  else
    let p := { p with shuttingDown := true }
    if p.stopsClaimed then p.reply n (.finished (.ok ()))
    else
      ({ p with stopsClaimed := true }.addCall n .finishing).requestProducer (.call n)

/-- Begins the offer of a batch. A batch that can never fit is refused at once. -/
def invokeBatch (p : Pipeline) (n : Nat) (items : List WorkItem) (wait : Wait) : Pipeline :=
  match p.refusal? with
  | some e => p.reply n (.offered (.error e))
  | none =>
    if p.settings.queueSize.toNat < items.length then
      p.reply n (.offered (.error (.batchTooLarge items.length p.settings.queueSize.toNat)))
    else if items.isEmpty then p.reply n (.offered (.ok true))
    else (p.addCall n (.batching items wait)).requestProducer (.call n)

/-- Begins a call under a number that no pending call has. -/
def invoke (p : Pipeline) (n : Nat) (request : Request) : Pipeline :=
  let p := p.record (.invoked n request)
  let t := .call n
  match request with
  | .start => (p.addCall n .starting).requestTracker t
  | .offer item wait => (p.addCall n (.offering item wait)).requestProducer t
  | .offerBatch items wait => p.invokeBatch n items wait
  | .finish => p.invokeFinish n
  | .checkActive => (p.addCall n .checking).requestTracker t
  | .status => (p.addCall n .reading).requestTracker t

/-- The next step of a pending call, if it can take one. -/
def stepCall? (p : Pipeline) (n : Nat) (stage : CallStage) : Option Pipeline :=
  let t := .call n
  let atTracker (next : Pipeline) : Option Pipeline :=
    if p.trackerLock.heldBy t then some next else none
  let atProducer (next : Pipeline) : Option Pipeline :=
    if p.producerLock.heldBy t then some next else none
  match stage with
  | .starting =>
    atTracker (if p.started then p.reply n .started else p.setCall n (.launching 0))
  | .launching count => some (p.launchNext n count)
  | .offering item wait =>
    atProducer <|
      match p.refusal? with
      | some e => p.reply n (.offered (.error e))
      | none => (p.setCall n (.offerPolling item wait)).requestTracker t
  | .offerPolling item wait => atTracker (afterOfferPoll n item wait (p.poll t))
  | .offerInjecting item wait i => (p.inject? t i).map (afterOfferPoll n item wait)
  | .sending item deadline =>
    if p.intake.hasSlot t then
      let p := { p with intake := p.intake.push t (.data item) }.record (.admitted n [item])
      some (p.reply n (.offered (.ok true)))
    else if deadline ≤ p.now then some (p.reply n (.offered (.ok false)))
    else none
  | .batching items wait =>
    atProducer <|
      match p.refusal? with
      | some e => p.reply n (.offered (.error e))
      | none => p.testBatch n items (wait.deadline? p.now)
  | .pausing items wake deadline =>
    if wake ≤ p.now then some (p.testBatch n items deadline) else none
  | .finishing =>
    atProducer <|
      if p.settings.numClients.toNat = 0 then p.reply n (.finished (.ok ()))
      else p.queueFetchStop n p.settings.numClients.toNat
  | .stopping remaining deadline =>
    if p.intake.hasSlot t then
      let p := { p with intake := p.intake.push t .stop }.record (.stopQueued .fetch)
      if remaining ≤ 1 then some (p.reply n (.finished (.ok ())))
      else some (p.queueFetchStop n (remaining - 1))
    else if deadline ≤ p.now then
      let p := { p with intake := p.intake.leave t }.record (.handoffStalled t .fetchStop)
      some ((p.setCall n .stallingOut).requestTracker t)
    else none
  | .stallingOut =>
    atTracker <|
      let f := .stalled Cargo.fetchStop.label p.ceiling
      (p.fail f).reply n (.finished (.error f.error))
  | .checking => atTracker (afterCheckPoll n (p.poll t))
  | .checkInjecting i => (p.inject? t i).map (afterCheckPoll n)
  | .reading => atTracker (p.reply n (.status p.statusView))

end Pipeline

end DocumentPipeline
