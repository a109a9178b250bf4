import DocumentPipeline.Pipeline.Calls
import DocumentPipeline.Pipeline.Workers

/-! # Actions on a pipeline

An action is one step of one party: a caller, a worker, a collaborator that
returns, or the clock. A run is any sequence of enabled actions, so it covers
every order in which the parties can be scheduled.
-/
namespace DocumentPipeline

inductive Action where
  /-- A caller begins a call under an unused number. -/
  | invoke (call : Nat) (request : Request)
  /-- A caller gives up a call that waits. -/
  | cancel (call : Nat)
  /-- Aborts all workers. -/
  | close
  /-- The pipeline is given up altogether. -/
  | drop
  /-- A worker or call takes its next step. -/
  | proceed (task : Task)
  /-- A worker that was asked to abort ends. -/
  | abort (task : Task)
  | clientReturns (i : Nat) (result : Return ClientError Unit)
  | processReturns (i : Nat) (result : Return ClientError Outcome)
  | emitReturns (j : Nat) (result : Return EmitError Unit)
  /-- Time passes. -/
  | tick (ms : Nat)
  deriving Inhabited

namespace Pipeline

/-- The stage of a pending call. -/
def callStage? (p : Pipeline) (n : Nat) : Option CallStage := p.calls.lookup n

/-- A task's next step, if it can take one by itself. -/
def proceed? (p : Pipeline) : Task → Option Pipeline
  | .fetcher i => p.fetchers[i]? >>= p.stepFetcher? i
  | .emitter j => p.emitters[j]? >>= p.stepEmitter? j
  | .call n => p.callStage? n >>= p.stepCall? n

/-- Ends a worker that was asked to abort. -/
def abort? (p : Pipeline) : Task → Option Pipeline
  | .fetcher i => p.fetchers[i]? >>= p.abortFetcher? i
  | .emitter j => p.emitters[j]? >>= p.abortEmitter? j
  | .call _ => none

/-- Gives up a pending call, unless it runs on without waiting. -/
def cancel? (p : Pipeline) (n : Nat) : Option Pipeline :=
  match p.callStage? n with
  | some stage =>
    if stage.isSuspended then
      let p := p.release (.call n)
      some ({ p with calls := p.calls.filter (·.1 ≠ n) }.record (.cancelled n))
    else none
  | none => none

/-- Aborts all workers, the first time. -/
def close (p : Pipeline) : Pipeline :=
  (if p.closed then p else p.abortAll).record .closed

/-- Gives up the pipeline, which aborts all workers. -/
def drop (p : Pipeline) : Pipeline := p.abortAll.record .dropped

/-- Takes an action, if it is enabled. -/
def step (p : Pipeline) : Action → Option Pipeline
  | .invoke n request => if (p.callStage? n).isNone then some (p.invoke n request) else none
  | .cancel n => p.cancel? n
  | .close => some p.close
  | .drop => if p.calls.isEmpty then some p.drop else none
  | .proceed t => p.proceed? t
  | .abort t => p.abort? t
  | .clientReturns i r => p.fetchers[i]? >>= fun w => p.clientReturned? i w r
  | .processReturns i r => p.fetchers[i]? >>= fun w => p.processReturned? i w r
  | .emitReturns j r => p.emitters[j]? >>= fun w => p.emitReturned? j w r
  | .tick ms => some { p with now := p.now + ms }

/-- Takes actions one after the other, as long as they are enabled. -/
def run (p : Pipeline) : List Action → Option Pipeline
  | [] => some p
  | a :: as => p.step a >>= fun p => p.run as

/-- What some sequence of actions leads to. -/
def Reaches (p q : Pipeline) : Prop := ∃ as, p.run as = some q

@[simp] theorem run_nil (p : Pipeline) : p.run [] = some p := rfl

@[simp] theorem run_cons (p : Pipeline) (a : Action) (as : List Action) :
    p.run (a :: as) = (p.step a).bind fun q => q.run as := rfl

theorem run_append (p : Pipeline) (as bs : List Action) :
    p.run (as ++ bs) = (p.run as).bind fun q => q.run bs := by
  induction as generalizing p with
  | nil => rfl
  | cons a as ih => simp [ih, Option.bind_assoc]

theorem Reaches.refl (p : Pipeline) : p.Reaches p := ⟨[], rfl⟩

theorem Reaches.step {p q r : Pipeline} {a : Action} (h : p.Reaches q) (hs : q.step a = some r) :
    p.Reaches r := by
  obtain ⟨as, has⟩ := h
  exact ⟨as ++ [a], by simp [run_append, has, hs]⟩

end Pipeline

end DocumentPipeline
