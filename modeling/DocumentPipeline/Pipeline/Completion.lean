import DocumentPipeline.Pipeline.State
import DocumentPipeline.Text.Quoted

/-! # Completion polls

A poll runs under the tracker's lock. It collects the workers that ended, latches
the first failure and, once every fetch worker has finished cleanly, injects one
stop signal per emit worker, each waiting for its slot.
-/
namespace DocumentPipeline

/-- What a poll has come to. -/
inductive Verdict where
  | failed (e : PipelineError)
  /-- Whether a worker is still running. -/
  | active (running : Bool)
  /-- A stop signal waits for its slot, with the tracker's lock held. -/
  | injecting (i : Injection)
  deriving DecidableEq, Inhabited

namespace Pipeline

/-- Asks every launched worker to abort. -/
def abortAll (p : Pipeline) : Pipeline :=
  { p with
    shuttingDown := true
    closed := true
    fetchers := p.fetchers.mapIdx fun i w =>
      if .fetcher i ∈ p.abortable then { w with abortRequested := true } else w
    emitters := p.emitters.mapIdx fun j w =>
      if .emitter j ∈ p.abortable then { w with abortRequested := true } else w }

/-- Tears the pipeline down and latches a failure. -/
def fail (p : Pipeline) (f : Failure) : Pipeline :=
  let p := p.abortAll
  { p with tracker := { p.tracker with failure := some f } }.record (.latched f)

/-- The reason given for a worker that panicked. Workers are not told apart by number. -/
def panicReason (message : String) : String := "task N panicked with message " ++ quoted message

/-- Name of the pool of a worker, as it was noted at its launch. -/
def roleName (p : Pipeline) (t : Task) : String :=
  match p.tracker.roles.lookup t with
  | some r => r.label
  | none => "unknown"

/-- Counts a collected worker. -/
def countExit (p : Pipeline) (t : Task) (ending : Ending) : Pipeline :=
  let tracker := { p.tracker with finished := p.tracker.finished + 1 }
  let tracker :=
    match ending, t.role? with
    | .finished, some .fetch => { tracker with fetchFinished := tracker.fetchFinished + 1 }
    | .finished, some .emit => { tracker with emitFinished := tracker.emitFinished + 1 }
    | _, _ => tracker
  { p with tracker }.record (.collected t ending)

/-- The failure that the ending of a worker means, if it means one. -/
def failureOf? (p : Pipeline) (t : Task) : Ending → Option Failure
  | .failed e => some (.worker ((t.role?.map Role.label).getD "unknown") e.message)
  | .panicked m => some (.worker (p.roleName t) (panicReason m))
  | _ => none

/-- Collects ended workers in order up to the first failure, which is latched. -/
def collectFrom (p : Pipeline) : List (Task × Ending) → Pipeline × Option Failure
  | [] => (p, none)
  | (t, ending) :: rest =>
    let p := { p with tracker := { p.tracker with exits := rest } }.countExit t ending
    match p.failureOf? t ending with
    | none => p.collectFrom rest
    | some f => (p.fail f, some f)

/-- Collects the workers that have ended. -/
def collect (p : Pipeline) : Pipeline × Option Failure := p.collectFrom p.tracker.exits

/-- Joins the outtake queue's senders with a stop signal. -/
def queueEmitStop (p : Pipeline) (t : Task) (remaining : Nat) : Pipeline × Verdict :=
  ({ p with outtake := p.outtake.join t }.record (.handoffBegan t .emitStop),
    .injecting ⟨remaining, p.now + p.ceiling⟩)

/-- All emit stop signals are sent. -/
def endInjection (p : Pipeline) : Pipeline × Verdict :=
  let p := { p with tracker := { p.tracker with emitStopSent := true } }
  (p, .active (p.tracker.finished ≠ p.settings.totalWorkers))

/-- Runs a poll by a task that holds the tracker's lock. -/
def poll (p : Pipeline) (t : Task) : Pipeline × Verdict :=
  if !p.started then (p, .failed .notInitialized)
  else
    match p.tracker.failure with
    | some f => (p, .failed f.error)
    | none =>
      match p.collect with
      | (p, some f) => (p, .failed f.error)
      | (p, none) =>
        if p.tracker.fetchFinished = p.settings.numClients.toNat ∧ !p.tracker.emitStopSent then
          if p.settings.numEmitters.toNat = 0 then p.endInjection
          else p.queueEmitStop t p.settings.numEmitters.toNat
        else (p, .active (p.tracker.finished ≠ p.settings.totalWorkers))

/-- Goes on with an injection: the signal gets its slot, or gives up at its ceiling. -/
def inject? (p : Pipeline) (t : Task) (i : Injection) : Option (Pipeline × Verdict) :=
  if p.outtake.hasSlot t then
    let p := { p with outtake := p.outtake.push t .stop }.record (.stopQueued .emit)
    if i.remaining ≤ 1 then some p.endInjection
    else some (p.queueEmitStop t (i.remaining - 1))
  else if i.deadline ≤ p.now then
    let p := { p with outtake := p.outtake.leave t }.record (.handoffStalled t .emitStop)
    let p := { p with tracker := { p.tracker with emitStopSent := true } }
    let f := .stalled Cargo.emitStop.label p.ceiling
    some (p.fail f, .failed f.error)
  else none

end Pipeline

end DocumentPipeline
