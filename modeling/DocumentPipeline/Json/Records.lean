import DocumentPipeline.Json.Reading
import DocumentPipeline.Outcome
import DocumentPipeline.Pipeline.Status

/-! # JSON form of the data model

For each type of the data model, the value that is written for it and the reader
that takes the text back. A record is written with its fields in the order of its
declaration; metadata in the order of its names.
-/
namespace DocumentPipeline

open Json

namespace Metadata

def toJson (m : Metadata) : Json :=
  .object (m.toList.map fun e => (e.1, .array (e.2.map .text)))

/-- Takes one attribute; a repeated name keeps its last list. -/
def readMember (m : Metadata) (e : Label × Node) : Result Metadata := do
  let name ← readLabel e.1
  .ok (m.put name (← readList readString e.2))

def read : Node → Result Metadata
  | .object members fault => do
    let m ← members.foldlM readMember empty
    close fault
    .ok m
  | v => .error v.mismatch

end Metadata

namespace FetchKey

def toJson (k : FetchKey) : Json :=
  .object [("fetcher_name", .text k.fetcher), ("fetch_key", .text k.key)]

def fields : List Field :=
  [.of "fetcher_name" .required readString, .of "fetch_key" .required readString]

def read (v : Node) : Result FetchKey := do
  let slots ← readSlots fields v
  .ok ⟨← slots.get "fetcher_name" readString, ← slots.get "fetch_key" readString⟩

end FetchKey

namespace EmitKey

def toJson (k : EmitKey) : Json :=
  .object [("emitter_name", .text k.emitter), ("emit_key", .text k.key)]

def fields : List Field :=
  [.of "emitter_name" .required readString, .of "emit_key" .required readString]

def read (v : Node) : Result EmitKey := do
  let slots ← readSlots fields v
  .ok ⟨← slots.get "emitter_name" readString, ← slots.get "emit_key" readString⟩

end EmitKey

namespace ExceptionPolicy

def label : ExceptionPolicy → String
  | skip => "skip"
  | emit => "emit"

def all : List ExceptionPolicy := [skip, emit]

def toJson (p : ExceptionPolicy) : Json := .text p.label

def read : Node → Result ExceptionPolicy := readVariant (all.map fun p => (p.label, p))

end ExceptionPolicy

namespace WorkItem

def toJson (w : WorkItem) : Json :=
  .object [("id", .text w.id), ("fetch_key", w.fetchKey.toJson), ("emit_key", w.emitKey.toJson),
    ("metadata", w.metadata.toJson), ("on_parse_exception", w.onException.toJson)]

def fields : List Field :=
  [.of "id" .required readString, .of "fetch_key" .required FetchKey.read,
    .of "emit_key" .required EmitKey.read, .of "metadata" .defaulted Metadata.read,
    .of "on_parse_exception" .defaulted ExceptionPolicy.read]

def read (v : Node) : Result WorkItem := do
  let slots ← readSlots fields v
  .ok
    { id := ← slots.get "id" readString
      fetchKey := ← slots.get "fetch_key" FetchKey.read
      emitKey := ← slots.get "emit_key" EmitKey.read
      metadata := ← slots.getD "metadata" Metadata.read ∅
      onException := ← slots.getD "on_parse_exception" ExceptionPolicy.read .emit }

end WorkItem

namespace Payload

def toJson (p : Payload) : Json :=
  .object [("emit_key", p.emitKey.toJson), ("metadata_list", .array (p.documents.map (·.toJson)))]

def fields : List Field :=
  [.of "emit_key" .required EmitKey.read, .of "metadata_list" .required (readList Metadata.read)]

def read (v : Node) : Result Payload := do
  let slots ← readSlots fields v
  .ok ⟨← slots.get "emit_key" EmitKey.read, ← slots.get "metadata_list" (readList Metadata.read)⟩

end Payload

namespace Status

def toJson (s : Status) : Json := .text s.label

def read : Node → Result Status := readVariant (all.map fun s => (s.label, s))

end Status

namespace Role

def all : List Role := [fetch, emit]

def toJson (r : Role) : Json := .text r.label

def read : Node → Result Role := readVariant (all.map fun r => (r.label, r))

end Role

namespace Phase

def toJson (p : Phase) : Json := .text p.label

def read : Node → Result Phase := readVariant (all.map fun p => (p.label, p))

end Phase

namespace PoolStatus

def toJson (s : PoolStatus) : Json :=
  .object [("name", .text s.name), ("size", .natural s.size.toNat),
    ("finished", .natural s.finished.toNat)]

def fields : List Field :=
  [.of "name" .required readString, .of "size" .required readWord,
    .of "finished" .required readWord]

def read (v : Node) : Result PoolStatus := do
  let slots ← readSlots fields v
  .ok ⟨← slots.get "name" readString, ← slots.get "size" readWord,
    ← slots.get "finished" readWord⟩

end PoolStatus

namespace PipelineStatus

def toJson (s : PipelineStatus) : Json :=
  .object (("phase", s.phase.toJson) ::
    ((s.startedAt.map fun t => ("started_at", .text t.write)).toList ++
      [("queue_size", .natural s.queueSize.toNat),
        ("remaining_capacity", .natural s.remainingCapacity.toNat),
        ("emit_queue_remaining", .natural s.emitQueueRemaining.toNat),
        ("fetch_pool", s.fetchPool.toJson), ("emit_pool", s.emitPool.toJson),
        ("total_processed", .natural s.totalProcessed.toNat)]))

/-- Reads an instant, or `null` for none. -/
def readInstant? : Node → Result (Option Instant) := readOptional (readContent Instant.read?)

def fields : List Field :=
  [.of "phase" .required Phase.read, .of "started_at" .nullable readInstant?,
    .of "queue_size" .required readWord, .of "remaining_capacity" .required readWord,
    .of "emit_queue_remaining" .required readWord, .of "fetch_pool" .required PoolStatus.read,
    .of "emit_pool" .required PoolStatus.read, .of "total_processed" .required readWord]

def read (v : Node) : Result PipelineStatus := do
  let slots ← readSlots fields v
  .ok
    { phase := ← slots.get "phase" Phase.read
      startedAt := ← slots.getD "started_at" readInstant? none
      queueSize := ← slots.get "queue_size" readWord
      remainingCapacity := ← slots.get "remaining_capacity" readWord
      emitQueueRemaining := ← slots.get "emit_queue_remaining" readWord
      fetchPool := ← slots.get "fetch_pool" PoolStatus.read
      emitPool := ← slots.get "emit_pool" PoolStatus.read
      totalProcessed := ← slots.get "total_processed" readWord }

end PipelineStatus

namespace Settings

def toJson (s : Settings) : Json :=
  .object [("queue_size", .natural s.queueSize.toNat),
    ("num_clients", .natural s.numClients.toNat),
    ("num_emitters", .natural s.numEmitters.toNat),
    ("max_offer_wait_ms", .natural s.maxOfferWaitMs.toNat)]

def fields : List Field :=
  [.of "queue_size" .defaulted readWord, .of "num_clients" .defaulted readWord,
    .of "num_emitters" .defaulted readWord, .of "max_offer_wait_ms" .defaulted readWord]

def read (v : Node) : Result Settings := do
  let slots ← readSlots fields v
  let defaults : Settings := {}
  .ok
    { queueSize := ← slots.getD "queue_size" readWord defaults.queueSize
      numClients := ← slots.getD "num_clients" readWord defaults.numClients
      numEmitters := ← slots.getD "num_emitters" readWord defaults.numEmitters
      maxOfferWaitMs := ← slots.getD "max_offer_wait_ms" readWord defaults.maxOfferWaitMs }

end Settings

namespace Config

def toJson (c : Config) : Json := .object [("processor", c.processor.toJson)]

def fields : List Field := [.of "processor" .defaulted Settings.read]

def read (v : Node) : Result Config := do
  let slots ← readSlots fields v
  .ok ⟨← slots.getD "processor" Settings.read {}⟩

end Config

end DocumentPipeline
