import DocumentPipeline.Simulation.Scripted

/-! # Scripted collaborators on their own

A bench tries the scripted collaborators out without a pipeline and without a
clock: one factory, one emitter and one recorder.
-/
namespace DocumentPipeline

inductive BenchStep where
  | setOutcome (key : String) (outcome : ScriptedOutcome)
  | setStartupError (reason : String)
  | setNextError (error : EmitError)
  | create
  | release (client : Nat)
  | process (item : WorkItem)
  /-- Reports the last item that was processed without an error. -/
  | report (elapsedMs : Nat)
  | countWithStatus (s : Status)
  | emit (payload : Payload)
  | state
  deriving Inhabited

structure Bench where
  clients : ScriptedClients := {}
  emitter : ScriptedEmitter := {}
  reports : List Report := []
  last : Option (WorkItem × Outcome) := none
  /-- The clients given back. -/
  released : List Nat := []
  deriving Inhabited

inductive BenchResult where
  | nothing
  | client (n : Nat)
  | processed (result : Return ClientError Outcome)
  | startupFailed (e : ClientError)
  | count (n : Nat)
  | emitted (result : Except EmitError Unit)
  | state (b : Bench)
  deriving Inhabited

namespace Bench

def takeStep (b : Bench) : BenchStep → Bench × BenchResult
  | .setOutcome key o => ({ b with clients := b.clients.setOutcome key o }, .nothing)
  | .setStartupError r =>
    ({ b with clients := { b.clients with startupError := some r } }, .nothing)
  | .setNextError e => ({ b with emitter := { b.emitter with nextError := some e } }, .nothing)
  | .create =>
    match b.clients.create with
    | (.value (), clients) => ({ b with clients }, .client b.clients.created)
    | (.error e, clients) => ({ b with clients }, .startupFailed e)
    | (.panic _, clients) => ({ b with clients }, .nothing)
  | .release n =>
    if n ∈ b.released ∨ b.clients.created ≤ n then (b, .nothing)
    else ({ b with clients := b.clients.release, released := n :: b.released }, .nothing)
  | .process item =>
    let clients := b.clients.beginItem item
    let r := clients.resultOf item
    match r with
    | .value o => ({ b with clients, last := some (item, o) }, .processed r)
    | r => ({ b with clients }, .processed r)
  | .report elapsed =>
    let reports :=
      match b.last with
      | some (item, o) => b.reports ++ [.ofOutcome item o elapsed]
      | none => b.reports
    ({ b with reports }, .count reports.length)
  | .countWithStatus s => (b, .count (countStatus b.reports s))
  | .emit payload =>
    match b.emitter.beginEmit with
    | (some e, emitter) => ({ b with emitter }, .emitted (.error e))
    | (none, emitter) => ({ b with emitter := emitter.keep payload }, .emitted (.ok ()))
  | .state => (b, .state b)

/-- Takes steps one after the other. -/
def run (b : Bench) : List BenchStep → List BenchResult
  | [] => []
  | s :: ss =>
    let (b, r) := b.takeStep s
    r :: b.run ss

end Bench

end DocumentPipeline
