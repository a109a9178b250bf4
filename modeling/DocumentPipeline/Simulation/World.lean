import DocumentPipeline.Metrics
import DocumentPipeline.Pipeline.Step
import DocumentPipeline.Simulation.Scripted

/-! # A pipeline among scripted collaborators

The world holds a pipeline, its collaborators with the calls they are working on,
and the activities of its callers. It moves by turns: one task at a time, each
until it has to wait, and the clock only when nobody can move.
-/
namespace DocumentPipeline

/-- What the layer around the clients does with a fetch key. -/
structure ClientRule where
  delay : Nat := 0
  /-- The outcome is replaced by running out of memory. -/
  outOfMemory : Bool := false
  deriving DecidableEq, Inhabited

/-- What the layer around the emitter does with an emit key. -/
structure EmitRule where
  delay : Nat := 0
  /-- Returned without a delivery. -/
  error? : Option EmitError := none
  deriving DecidableEq, Inhabited

/-- How far a collaborator is with a call. -/
inductive Work where
  /-- Before a client is created. -/
  | creating
  /-- Before the client turns to the item. -/
  | approaching (item : WorkItem) (rule : ClientRule)
  /-- The client works on the item. -/
  | processing (item : WorkItem) (rule : ClientRule)
  /-- Before the emitter turns to the payload. -/
  | addressing (payload : Payload) (rule : EmitRule)
  /-- The emitter delivers the payload. -/
  | delivering (payload : Payload)
  deriving DecidableEq, Inhabited

/-- What an activity came to. -/
inductive Answer where
  | nothing
  | reply (r : Reply)
  | replies (rs : List Reply)
  /-- Number of polls and the last one's reply. -/
  | drained (polls : Nat) (last : Reply)
  | count (n : Nat)
  | keys (ks : List String)
  | reports (rs : List Report)
  | payloads (ps : List Payload)
  | metrics (fs : List MetricFamily)
  deriving Inhabited

/-- What is left of an activity after its present call or pause. -/
inductive Plan where
  | single
  /-- Items still to be offered one by one, and the replies so far, latest first. -/
  | offers (rest : List WorkItem) (wait : Wait) (replies : List Reply)
  /-- Check again after a pause, as long as the pipeline is active. -/
  | drain (pause polls : Nat)
  | rest
  deriving Inhabited

/-- Where an activity of a caller stands. -/
inductive Doing where
  | calling (call : Nat) (plan : Plan)
  | pausing (wake : Nat) (plan : Plan)
  | done (answer : Answer) (time : Nat)
  /-- Given up. -/
  | dropped
  deriving Inhabited

structure Activity where
  /-- Given to an activity in the background. -/
  name? : Option String
  doing : Doing
  deriving Inhabited

def Activity.isOver (a : Activity) : Bool :=
  match a.doing with
  | .done _ _ | .dropped => true
  | _ => false

structure World where
  pipeline : Pipeline
  clients : ScriptedClients := {}
  emitter : ScriptedEmitter := {}
  createDelay : Nat := 0
  clientRules : List (String × ClientRule) := []
  emitRules : List (String × EmitRule) := []
  /-- The calls that collaborators work on, with the time of their next move. -/
  works : List (Task × Work × Nat) := []
  activities : List Activity := []
  /-- Number of calls made so far. -/
  calls : Nat := 0
  /-- Whether the caller still holds on to the pipeline. -/
  held : Bool := true
  /-- Whether the pipeline has been given up. -/
  dropped : Bool := false
  deriving Inhabited

namespace World

def now (w : World) : Nat := w.pipeline.now

/-- Most polls of one drain. -/
def maxPolls : Nat := 2000

/-- Bound on the turns taken at one instant. -/
def turnLimit : Nat := 1000000000

def fetchStage? (w : World) (i : Nat) : Option FetchStage :=
  w.pipeline.fetchers[i]?.map fun f => f.stage

def emitStage? (w : World) (j : Nat) : Option EmitStage :=
  w.pipeline.emitters[j]?.map fun e => e.stage

/-- Takes an action on the pipeline, if it is enabled. -/
def act? (w : World) (a : Action) : Option World :=
  (w.pipeline.step a).map fun pipeline => { w with pipeline }

def forget (w : World) (t : Task) : World := { w with works := w.works.filter (·.1 ≠ t) }

def schedule (w : World) (t : Task) (work : Work) (delay : Nat) : World :=
  { w.forget t with works := (t, work, w.now + delay) :: (w.forget t).works }

/-- Returns from a collaborator's call. -/
def answer? (w : World) (t : Task) (a : Action) : Option World := (w.forget t).act? a

/-- Begins the call that a worker waits for, by the rules as they stand. -/
def beginWork? (w : World) (t : Task) : Option World :=
  match t with
  | .fetcher i =>
    match w.fetchStage? i with
    | some .creating => some (w.schedule t .creating w.createDelay)
    | some (.processing item _) =>
      let rule := (w.clientRules.lookup item.fetchKey.key).getD {}
      some (w.schedule t (.approaching item rule) rule.delay)
    | _ => none
  | .emitter j =>
    match w.emitStage? j with
    | some (.emitting payload) =>
      let rule := (w.emitRules.lookup payload.emitKey.key).getD {}
      some (w.schedule t (.addressing payload rule) rule.delay)
    | _ => none
  | .call _ => none

/-- The result of an item with the rule of its key: running out of memory replaces whatever
the client returns. -/
def ruledResult (w : World) (item : WorkItem) (rule : ClientRule) : Return ClientError Outcome :=
  match w.clients.resultOf item with
  | .panic m => .panic m
  | r => if rule.outOfMemory then .value .outOfMemory else r

/-- Moves a collaborator's call on when its time has come. -/
def moveWork? (w : World) (t : Task) (work : Work) : Option World :=
  match t, work with
  | .fetcher i, .creating =>
    let (r, clients) := w.clients.create
    { w with clients }.answer? t (.clientReturns i r)
  | .fetcher i, .approaching item rule =>
    let w := { w with clients := w.clients.beginItem item }
    if w.clients.processDuration = 0 then
      w.answer? t (.processReturns i (w.ruledResult item rule))
    else some (w.schedule t (.processing item rule) w.clients.processDuration)
  | .fetcher i, .processing item rule =>
    w.answer? t (.processReturns i (w.ruledResult item rule))
  | .emitter j, .addressing payload rule =>
    match rule.error? with
    | some e => w.answer? t (.emitReturns j (.error e))
    | none =>
      match w.emitter.beginEmit with
      | (some e, emitter) => { w with emitter }.answer? t (.emitReturns j (.error e))
      | (none, emitter) =>
        let w := { w with emitter }
        if emitter.emitDuration = 0 then
          { w with emitter := emitter.keep payload }.answer? t (.emitReturns j (.value ()))
        else some (w.schedule t (.delivering payload) emitter.emitDuration)
  | .emitter j, .delivering payload =>
    { w with emitter := w.emitter.keep payload }.answer? t (.emitReturns j (.value ()))
  | _, _ => none

/-- The next turn of a worker, if it has one: it aborts if it was asked to, or takes its own
step, or that of the collaborator it waits for. A worker that moves by itself is done with its
collaborator. -/
def workerTurn? (w : World) (t : Task) : Option World :=
  match w.act? (.abort t) <|> w.act? (.proceed t) with
  | some w => some (w.forget t)
  | none =>
    match w.works.lookup t with
    | none => w.beginWork? t
    | some (work, time) => if time ≤ w.now then w.moveWork? t work else none

/-- The reply that a call got, if it has returned. -/
def replyOf? (w : World) (call : Nat) : Option Reply :=
  w.pipeline.history.findSome? fun e =>
    match e.event with
    | .replied n r => if n = call then some r else none
    | _ => none

/-- Begins a call and hands its number to a plan. -/
def beginCall (w : World) (request : Request) (plan : Plan) : World × Doing :=
  let n := w.calls
  match w.act? (.invoke n request) with
  | some w => ({ w with calls := n + 1 }, .calling n plan)
  | none => (w, .dropped)

/-- Goes on with a plan after the reply to its call. -/
def afterReply (w : World) (r : Reply) : Plan → World × Doing
  | .single => (w, .done (.reply r) w.now)
  | .offers [] _ rs => (w, .done (.replies (r :: rs).reverse) w.now)
  | .offers (item :: rest) wait rs => w.beginCall (.offer item wait) (.offers rest wait (r :: rs))
  | .drain pause polls =>
    match r with
    | .active (.ok true) =>
      if polls + 1 < maxPolls then (w, .pausing (w.now + pause) (.drain pause (polls + 1)))
      else (w, .done (.drained (polls + 1) r) w.now)
    | r => (w, .done (.drained (polls + 1) r) w.now)
  | .rest => (w, .done .nothing w.now)

/-- Goes on with a plan after its pause. -/
def afterPause (w : World) : Plan → World × Doing
  | .drain pause polls => w.beginCall .checkActive (.drain pause polls)
  | _ => (w, .done .nothing w.now)

/-- The next turn of an activity, if it has one. -/
def doingTurn? (w : World) : Doing → Option (World × Doing)
  | .calling n plan =>
    match w.pipeline.callStage? n with
    | some _ => (w.act? (.proceed (.call n))).map fun w => (w, .calling n plan)
    | none =>
      match w.replyOf? n with
      | some r => some (w.afterReply r plan)
      | none => none
  | .pausing wake plan => if wake ≤ w.now then some (w.afterPause plan) else none
  | _ => none

def activityTurn? (w : World) (k : Nat) : Option World := do
  let a ← w.activities[k]?
  let (w, doing) ← w.doingTurn? a.doing
  some { w with activities := w.activities.set k { a with doing } }

/-- Repeats turns as long as there are any; the flag tells whether there was one. -/
def exhaust (turn? : World → Option World) : Nat → Bool → World → World × Bool
  | 0, moved, w => (w, moved)
  | fuel + 1, moved, w =>
    match turn? w with
    | none => (w, moved)
    | some w => exhaust turn? fuel true w

/-- Gives the pipeline up once nobody holds on to it. -/
def dropTurn? (w : World) : Option World :=
  if !w.held ∧ !w.dropped ∧ w.activities.all Activity.isOver then
    (w.act? .drop).map fun w => { w with dropped := true }
  else none

/-- The turns of all parties, in the order in which they are asked. -/
def parties (w : World) : List (World → Option World) :=
  (List.range w.pipeline.fetchers.length).map (fun i w => w.workerTurn? (.fetcher i)) ++
    (List.range w.pipeline.emitters.length).map (fun j w => w.workerTurn? (.emitter j)) ++
    (List.range w.activities.length).map (fun k w => w.activityTurn? k) ++ [dropTurn?]

/-- Asks every party once, and lets each go on until it has to wait. -/
def round (w : World) : World × Bool :=
  w.parties.foldl (fun (w, moved) turn? => exhaust turn? turnLimit moved w) (w, false)

/-- Lets everything run that can run without the clock moving. -/
def settleFor : Nat → World → World
  | 0, w => w
  | fuel + 1, w =>
    match w.round with
    | (w, true) => settleFor fuel w
    | (w, false) => w

def settle (w : World) : World := settleFor turnLimit w

/-- The times for which a fetch worker waits. -/
def fetchTimers (f : Fetcher) : List Nat :=
  match f.stage with
  | .receiving d | .handing _ _ _ d => [d]
  | .injecting i => [i.deadline]
  | _ => []

/-- The times for which a call waits. -/
def callTimers : CallStage → List Nat
  | .sending _ d | .pausing _ d _ | .stopping _ d => [d]
  | .offerInjecting _ _ i | .checkInjecting i => [i.deadline]
  | _ => []

/-- The times for which an activity waits. -/
def activityTimers (a : Activity) : List Nat :=
  match a.doing with
  | .pausing wake _ => [wake]
  | _ => []

/-- All times for which somebody waits. -/
def timers (w : World) : List Nat :=
  w.pipeline.fetchers.flatMap fetchTimers ++ w.pipeline.calls.flatMap (fun c => callTimers c.2) ++
    w.works.map (·.2.2) ++ w.activities.flatMap activityTimers

/-- The next time for which somebody waits. -/
def nextTimer? (w : World) : Option Nat := (w.timers.filter (w.now < ·)).min?

/-- Moves the clock to a later time. -/
def advanceTo (w : World) (time : Nat) : World :=
  (w.act? (.tick (time - w.now))).getD w

/-- Runs until an activity is over, but not beyond a limit. -/
def awaitFor (k limit : Nat) : Nat → World → World
  | 0, w => w
  | fuel + 1, w =>
    let w := w.settle
    if (w.activities[k]?).all Activity.isOver then w
    else
      match w.nextTimer? with
      | some t => if t ≤ limit then awaitFor k limit fuel (w.advanceTo t) else w.advanceTo limit
      | none => w.advanceTo limit

/-- How long a caller waits in the foreground, in milliseconds. -/
def patience : Nat := 600000

/-- Runs until an activity is over or the caller's patience ends. -/
def await (w : World) (k : Nat) : World := awaitFor k (w.now + patience) turnLimit w

/-- Adds an activity that begins with a call or is over at once, and lets it go on until it
has to wait. -/
def addActivity (w : World) (name? : Option String) (doing : Doing) : World × Nat :=
  let k := w.activities.length
  let w := { w with activities := w.activities ++ [⟨name?, doing⟩] }
  ((exhaust (activityTurn? · k) turnLimit false w).1, k)

/-- Gives up an activity, with the call it waits for. -/
def giveUp (w : World) (k : Nat) : World :=
  match w.activities[k]? with
  | some a =>
    let w :=
      match a.doing with
      | .calling n _ => (w.act? (.cancel n)).getD w
      | _ => w
    { w with activities := w.activities.set k { a with doing := .dropped } }
  | none => w

end World

end DocumentPipeline
