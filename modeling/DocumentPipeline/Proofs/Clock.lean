import DocumentPipeline.Proofs.Batches
import DocumentPipeline.Simulation.World

/-! # Runs on the simulated clock

A run may let any time pass at any moment, so it covers every speed of every party. On the
simulated clock time passes only when no task can go on by itself, and never beyond a time for
which a task waits. Only the collaborators take as long as they like.
-/
namespace DocumentPipeline

namespace Pipeline

/-- The workers that were launched, and the pending calls. -/
def tasks (p : Pipeline) : List Task :=
  (List.range p.fetchers.length).map .fetcher ++ (List.range p.emitters.length).map .emitter ++
    p.calls.map fun c => .call c.1

/-- The times for which the tasks wait. -/
def timers (p : Pipeline) : List Nat :=
  p.fetchers.flatMap World.fetchTimers ++ p.calls.flatMap fun c => World.callTimers c.2

/-- Whether an action can come next on the simulated clock. -/
def isPunctual (p : Pipeline) : Action → Bool
  | .tick ms =>
    p.tasks.all (fun t => (p.proceed? t).isNone && (p.abort? t).isNone) &&
      p.timers.all fun d => d ≤ p.now || p.now + ms ≤ d
  | _ => true

/-- Takes actions on the simulated clock, as long as they are enabled. -/
def runPunctually (p : Pipeline) : List Action → Option Pipeline
  | [] => some p
  | a :: as => if p.isPunctual a then p.step a >>= fun q => q.runPunctually as else none

variable {p q : Pipeline} {n : Nat} {s : CallStage} {a : Action} {as : List Action}

theorem runPunctually_cons :
    p.runPunctually (a :: as) = some q ↔
      p.isPunctual a = true ∧ ∃ r, p.step a = some r ∧ r.runPunctually as = some q := by
  rw [runPunctually]
  split
  · next h => simp [h, Option.bind_eq_some_iff]
  · next h => simp [h]

theorem run_of_runPunctually (h : p.runPunctually as = some q) : p.run as = some q := by
  induction as generalizing p with
  | nil => exact h
  | cons a as ih =>
    obtain ⟨-, r, hs, hr⟩ := runPunctually_cons.mp h
    simp [hs, ih hr]

theorem Reaches.of_runPunctually (h : p.runPunctually as = some q) : p.Reaches q :=
  ⟨as, run_of_runPunctually h⟩

/-- Time does not pass beyond the end of a pause. -/
theorem le_wake_of_tick {ms wake : Nat} {items : List WorkItem} {deadline : Option Nat}
    (hx : Sections p) (hm : (n, .pausing items wake deadline) ∈ p.calls)
    (h : p.isPunctual (.tick ms) = true) : p.now + ms ≤ wake := by
  simp only [isPunctual, Bool.and_eq_true, List.all_eq_true] at h
  obtain ⟨hidle, htimers⟩ := h
  have hmem : wake ∈ World.callTimers (.pausing items wake deadline) := by simp [World.callTimers]
  have hwake := htimers wake (List.mem_append_right _ (List.mem_flatMap.mpr ⟨_, hm, hmem⟩))
  have hstuck := hidle (.call n) (List.mem_append_right _ (List.mem_map.mpr ⟨_, hm, rfl⟩))
  have hnot : ¬ wake ≤ p.now := by
    intro hle
    simp [proceed?, hx.callStage?_eq hm, stepCall?, hle] at hstuck
  simpa [hnot] using hwake

/-- Only the clock lets time pass. -/
theorem now_of_step (hs : p.step a = some q) (ha : ∀ ms, a ≠ .tick ms) : q.now = p.now := by
  cases step_taken hs with
  | @invoke n r =>
    have hi := invoke_move p n r
    generalize p.invoke n r = q at hi
    cases hi <;> rfl
  | cancel | drop => rfl
  | close =>
    unfold Pipeline.close
    split <;> rfl
  | tick => exact absurd rfl (ha _)
  | call _ hs => exact (stepCall?_move hs).now
  | fetcher _ hs => exact (stepFetcher?_move hs).now
  | emitter _ hs => cases stepEmitter?_move hs <;> rfl
  | abortFetcher _ hs => exact (abortFetcher?_move hs).now
  | abortEmitter _ hs => cases abortEmitter?_move hs <;> rfl
  | clientReturns _ hs => exact (clientReturned?_move hs).now
  | processReturns _ hs => exact (processReturned?_move hs).now
  | emitReturns _ hs => cases emitReturned?_move hs <;> rfl

end Pipeline

end DocumentPipeline
