import DocumentPipeline.Pipeline.State

/-! # Metrics

Counters and duration histograms, drawn from the history of a pipeline. Families
stand in the order of their names, the series of a family in the order of their
label values, and a family without series is left out.
-/
namespace DocumentPipeline

/-- One series of a counter family. -/
structure Counter where
  label : String
  value : Nat
  deriving DecidableEq, Inhabited

/-- One series of a duration family, in milliseconds. -/
structure Histogram where
  label : String
  count : Nat
  sum : Nat
  /-- Upper bounds, each with the number of observations up to it. -/
  buckets : List (Nat × Nat)
  deriving DecidableEq, Inhabited

inductive Series where
  | counters (cs : List Counter)
  | histograms (hs : List Histogram)
  deriving DecidableEq, Inhabited

structure MetricFamily where
  name : String
  help : String
  /-- Name of the one label of its series. -/
  labelName : String
  series : Series
  deriving DecidableEq, Inhabited

namespace Metrics

/-- Upper bounds of the duration buckets in milliseconds. -/
def bounds : List Nat := [10, 50, 100, 500, 1000, 5000, 10000, 30000, 60000, 300000]

/-- Adds a label to a strictly ordered list of labels. -/
def insertLabel (l : String) : List String → List String
  | [] => [l]
  | m :: ms => if l = m then m :: ms else if l < m then l :: m :: ms else m :: insertLabel l ms

/-- The distinct labels in order. -/
def labels (ls : List String) : List String := ls.foldr insertLabel []

/-- One counter for each label that occurs. -/
def counters (ls : List String) : List Counter :=
  (labels ls).map fun l => ⟨l, ls.count l⟩

/-- One histogram for each label that occurs. -/
def histograms (obs : List (String × Nat)) : List Histogram :=
  (labels (obs.map Prod.fst)).map fun l =>
    let times := (obs.filter (·.1 = l)).map Prod.snd
    { label := l, count := times.length, sum := times.foldl (· + ·) 0
      buckets := bounds.map fun b => (b, times.countP (· ≤ b)) }

/-- Label of a finished delivery. One that panicked is not counted. -/
def deliveryLabel? : Return EmitError Unit → Option String
  | .value () => some "success"
  | .error e => some (if e.isUnrecoverable then "fatal" else "failed")
  | .panic _ => none

/-- The statuses reported, with their elapsed times. -/
def reported (es : List Event) : List (String × Nat) :=
  es.filterMap fun
    | .reported _ _ o elapsed => some (o.status.label, elapsed)
    | _ => none

/-- The results of deliveries. -/
def delivered (es : List Event) : List String :=
  es.filterMap fun
    | .emitEnded _ _ r => deliveryLabel? r
    | _ => none

/-- The queues into which stop signals went. -/
def stopped (es : List Event) : List String :=
  es.filterMap fun
    | .stopQueued role => some role.label
    | _ => none

end Metrics

/-- Whether a family has a series at all. -/
def Series.isEmpty : Series → Bool
  | counters cs => cs.isEmpty
  | histograms hs => hs.isEmpty

/-- All metrics of a history. -/
def gatherMetrics (es : List Event) : List MetricFamily :=
  let families : List MetricFamily :=
    [{ name := "docpipe_emits_total", help := "Total payloads handed to the emitter"
       labelName := "result", series := .counters (Metrics.counters (Metrics.delivered es)) },
     { name := "docpipe_processing_duration_seconds"
       help := "Duration of fetch, parse and hand-off per tuple"
       labelName := "status", series := .histograms (Metrics.histograms (Metrics.reported es)) },
     { name := "docpipe_stop_signals_total", help := "Total stop signals injected"
       labelName := "queue", series := .counters (Metrics.counters (Metrics.stopped es)) },
     { name := "docpipe_tuples_processed_total", help := "Total tuples processed"
       labelName := "status"
       series := .counters (Metrics.counters ((Metrics.reported es).map Prod.fst)) }]
  families.filter fun f => !f.series.isEmpty

end DocumentPipeline
