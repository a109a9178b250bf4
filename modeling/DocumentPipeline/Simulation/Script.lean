import DocumentPipeline.Simulation.World

/-! # Scripts

A script drives a world step by step. After each step everything runs that can
run without the clock moving, and a snapshot is taken.
-/
namespace DocumentPipeline

/-- What a caller can do, in the foreground or as an activity of its own. -/
inductive Operation where
  | setOutcome (key : String) (outcome : ScriptedOutcome)
  | setProcessDuration (ms : Nat)
  | setStartupError (reason : String)
  | setNextError (error : EmitError)
  | setEmitDuration (ms : Nat)
  | setCreateDelay (ms : Nat)
  | setClientRule (key : String) (rule : ClientRule)
  | setEmitRule (key : String) (rule : EmitRule)
  | request (r : Request)
  /-- Offers items one after the other. -/
  | offerEach (items : List WorkItem) (wait : Wait)
  /-- Checks with a pause in between until the pipeline is no longer active. -/
  | drain (pause : Nat)
  | close
  | advance (ms : Nat)
  | processed
  | reports
  | emitted
  | countWithStatus (s : Status)
  | metrics
  deriving Inhabited

inductive ScriptStep where
  | perform (op : Operation)
  /-- Begins an operation as an activity with a name. -/
  | spawn (name : String) (op : Operation)
  | isDone (name : String)
  /-- Waits for an activity. -/
  | join (name : String)
  /-- Gives up an activity that is not ended. -/
  | cancel (name : String)
  /-- Lets go of the pipeline. -/
  | drop
  deriving Inhabited

/-- What a step of a script shows. -/
inductive StepResult where
  | answer (a : Answer)
  | joined (a : Answer) (time : Nat)
  | flag (b : Bool)
  | cancelled
  /-- The caller's patience ended first. -/
  | hung
  deriving Inhabited

/-- Figures taken after a step. -/
structure Snapshot where
  time : Nat
  /-- Free intake slots and items processed, while the pipeline is held. -/
  pipeline : Option (Nat × Nat)
  processed : Nat
  reports : Nat
  attempts : Nat
  emitted : Nat
  created : Nat
  released : Nat
  deriving DecidableEq, Inhabited

namespace World

def reports (w : World) : List Report := reportsOf w.pipeline.events

/-- Number of clients given back. -/
def released (w : World) : Nat :=
  w.pipeline.history.countP fun e => match e.event with
    | .clientReleased _ => true
    | _ => false

def snapshot (w : World) : Snapshot where
  time := w.now
  pipeline :=
    if w.held then some (w.pipeline.remainingCapacity, w.pipeline.totalProcessed) else none
  processed := w.clients.processed.length
  reports := w.reports.length
  attempts := w.emitter.attempts
  emitted := w.emitter.emitted.length
  created := w.clients.created
  released := w.released

/-- Begins an operation. -/
def beginOp (w : World) (op : Operation) : World × Doing :=
  let ended (w : World) (a : Answer) : World × Doing := (w, .done a w.now)
  match op with
  | .setOutcome key o => ended { w with clients := w.clients.setOutcome key o } .nothing
  | .setProcessDuration ms =>
    ended { w with clients := { w.clients with processDuration := ms } } .nothing
  | .setStartupError reason =>
    ended { w with clients := { w.clients with startupError := some reason } } .nothing
  | .setNextError e => ended { w with emitter := { w.emitter with nextError := some e } } .nothing
  | .setEmitDuration ms =>
    ended { w with emitter := { w.emitter with emitDuration := ms } } .nothing
  | .setCreateDelay ms => ended { w with createDelay := ms } .nothing
  | .setClientRule key rule => ended { w with clientRules := (key, rule) :: w.clientRules } .nothing
  | .setEmitRule key rule => ended { w with emitRules := (key, rule) :: w.emitRules } .nothing
  | .request r => w.beginCall r .single
  | .offerEach [] _ => ended w (.replies [])
  | .offerEach (item :: rest) wait => w.beginCall (.offer item wait) (.offers rest wait [])
  | .drain pause => w.beginCall .checkActive (.drain pause 0)
  | .close => ended ((w.act? .close).getD w) .nothing
  | .advance ms => (w, .pausing (w.now + ms) .rest)
  | .processed => ended w (.keys w.clients.processed)
  | .reports => ended w (.reports w.reports)
  | .emitted => ended w (.payloads w.emitter.emitted)
  | .countWithStatus s => ended w (.count (countStatus w.reports s))
  | .metrics => ended w (.metrics (gatherMetrics w.pipeline.events))

/-- The activity with a name. -/
def find? (w : World) (name : String) : Option Nat := w.activities.findIdx? (·.name? = some name)

/-- The answer of an activity that is ended, with its time. -/
def outcome? (w : World) (k : Nat) : Option (Answer × Nat) :=
  match w.activities[k]?.map Activity.doing with
  | some (.done a time) => some (a, time)
  | _ => none

/-- Waits for an activity, and gives it up at the end of patience. -/
def waitFor (w : World) (k : Nat) : World × Option (Answer × Nat) :=
  let w := w.await k
  match w.outcome? k with
  | some r => (w, some r)
  | none => (w.giveUp k, none)

/-- Takes one step of a script. -/
def takeStep (w : World) : ScriptStep → World × StepResult
  | .perform op =>
    let (w, doing) := w.beginOp op
    let (w, k) := w.addActivity none doing
    match w.waitFor k with
    | (w, some (a, _)) => (w, .answer a)
    | (w, none) => (w, .hung)
  | .spawn name op =>
    let (w, doing) := w.beginOp op
    ((w.addActivity (some name) doing).1, .answer .nothing)
  | .isDone name =>
    (w, .flag ((w.find? name).any fun k => (w.activities[k]?).any Activity.isOver))
  | .join name =>
    match w.find? name with
    | some k =>
      match w.waitFor k with
      | (w, some (a, time)) => (w, .joined a time)
      | (w, none) => (w, .hung)
    | none => (w, .hung)
  | .cancel name =>
    match w.find? name with
    | some k =>
      match w.outcome? k with
      | some (a, time) => (w, .joined a time)
      | none => (w.giveUp k, .cancelled)
    | none => (w, .cancelled)
  | .drop => ({ w with held := false }, .answer .nothing)

/-- Takes a step, lets things settle and looks around. -/
def advanceStep (w : World) (s : ScriptStep) : World × StepResult × Snapshot :=
  let (w, r) := w.takeStep s
  let w := w.settle
  (w, r, w.snapshot)

/-- Runs a script to its end. -/
def runScript (w : World) : List ScriptStep → World × List (StepResult × Snapshot)
  | [] => (w, [])
  | s :: ss =>
    let (w, r, snap) := w.advanceStep s
    let (w, rest) := w.runScript ss
    (w, (r, snap) :: rest)

end World

end DocumentPipeline
